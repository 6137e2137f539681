import LetChain.Proofs.Typing.Hoisted
import LetChain.Proofs.Typing.Judgment

/-! Environments in which a check goes on: what their names may stand for. -/

namespace LetChain

namespace Lexical

open Resolve (PExpr PStmt TExpr TStmt Expected)

def Finishes (globals : Globals) (s : Symbols) : Prop :=
  ∀ id, id < s.size → globals.symbol id = (s.get id).forgetScope

theorem Finishes.before {globals : Globals} {s s' : Symbols} (finishes : Finishes globals s')
    (extended : Extends s.size s s') : Finishes globals s := by
  intro id bound
  rw [finishes id (Nat.lt_of_lt_of_le bound extended.more), extended.same id bound]

namespace Finishes

variable {globals : Globals} {s : Symbols} {id : SymbolId}

theorem isFunction (finishes : Finishes globals s) (bound : id < s.size) {params : List SymbolId}
    {returns : Ty} {scope : ScopeId} (kind : (s.get id).kind = .function params returns scope) :
    globals.IsFunction id params returns := by
  unfold Globals.IsFunction
  rw [finishes id bound, Symbol.forgetScope, kind]
  rfl

theorem isRecord (finishes : Finishes globals s) (bound : id < s.size) {fields : List SymbolId}
    (kind : (s.get id).kind = .record fields) : globals.IsRecord id fields := by
  unfold Globals.IsRecord
  rw [finishes id bound, Symbol.forgetScope, kind]
  rfl

theorem types (finishes : Finishes globals s) {ids : List SymbolId}
    (bound : ∀ id ∈ ids, id < s.size) : globals.types ids = ids.map fun id => (s.get id).ty := by
  unfold Globals.types
  refine List.map_congr_left fun id member => ?_
  rw [finishes id (bound id member)]
  rfl

end Finishes

/-- What a name may stand for in the body of `owner`, where the locals in `set` have values. A
parameter or local belongs to `owner` or to a function around it, which is older. -/
structure Visible (globals : Globals) (s : Symbols) (owner : Option SymbolId)
    (set : List SymbolId) (id : SymbolId) : Prop where
  bound : id < s.size
  localVar : (s.get id).kind = .localVar → ∃ around inner, owner = some inner ∧
    (s.get id).owner = some around ∧ around ≤ inner ∧ (around = inner → id ∈ set)
  param : ∀ index, (s.get id).kind = .param index → ∃ around inner params returns scope,
    owner = some inner ∧ (s.get id).owner = some around ∧ around ≤ inner ∧ around < s.size ∧
      (s.get around).kind = .function params returns scope ∧ params[index]? = some id
  function : (s.get id).kind.role = "function" → ∃ function ∈ globals.functions, function.sym = id

namespace Visible

variable {globals : Globals} {s s' : Symbols} {owner : Option SymbolId} {set set' : List SymbolId}
  {id : SymbolId}

theorem extend (visible : Visible globals s owner set id) (extended : Extends s.size s s')
    (more : set ⊆ set') : Visible globals s' owner set' id := by
  have same := extended.same id visible.bound
  refine ⟨Nat.lt_of_lt_of_le visible.bound extended.more, ?_, ?_, ?_⟩
  · rw [same]
    intro kind
    obtain ⟨around, inner, isOwner, owned, older, assigned⟩ := visible.localVar kind
    exact ⟨around, inner, isOwner, owned, older, fun own => more (assigned own)⟩
  · rw [same]
    intro index kind
    obtain ⟨around, inner, params, returns, scope, isOwner, owned, older, known, isFunction, found⟩ :=
      visible.param index kind
    refine ⟨around, inner, params, returns, scope, isOwner, owned, older,
      Nat.lt_of_lt_of_le known extended.more, ?_, found⟩
    rw [extended.same around known, isFunction]
  · rw [same]
    exact visible.function

theorem enter {function : SymbolId} (visible : Visible globals s owner set id)
    (younger : ∀ around, owner = some around → around < function) :
    Visible globals s (some function) [] id := by
  refine ⟨visible.bound, ?_, ?_, visible.function⟩
  · intro kind
    obtain ⟨around, inner, isOwner, owned, older, -⟩ := visible.localVar kind
    have below : around < function := Nat.lt_of_le_of_lt older (younger inner isOwner)
    exact ⟨around, function, rfl, owned, Nat.le_of_lt below,
      fun same => absurd same (Nat.ne_of_lt below)⟩
  · intro index kind
    obtain ⟨around, inner, params, returns, scope, isOwner, owned, older, known, isFunction, found⟩ :=
      visible.param index kind
    exact ⟨around, function, params, returns, scope, rfl, owned,
      Nat.le_of_lt (Nat.lt_of_le_of_lt older (younger inner isOwner)), known, isFunction, found⟩

end Visible

structure EnvTyped (globals : Globals) (s : Symbols) (set : List SymbolId) (env : Env) : Prop where
  visible : ∀ layer ∈ env.layers, ∀ entry ∈ layer.names,
    Visible globals s env.owner set entry.2
  owner : ∀ owner, env.owner = some owner → owner < s.size

theorem mem_of_lookup {α : Type} {entries : List (String × α)} {name : String} {value : α}
    (found : entries.lookup name = some value) : (name, value) ∈ entries := by
  induction entries with
  | nil => simp at found
  | cons entry rest ih =>
    rw [List.lookup_cons] at found
    split at found
    · rename_i same
      cases found
      rw [eq_of_beq same]
      exact List.mem_cons_self
    · exact List.mem_cons_of_mem _ (ih found)

namespace EnvTyped

variable {globals : Globals} {s s' : Symbols} {set set' : List SymbolId} {env env' : Env}

theorem lookup (typed : EnvTyped globals s set env) {name : String} {id : SymbolId}
    (found : env.symbol? name = some id) : Visible globals s env.owner set id := by
  obtain ⟨layer, member, found⟩ := List.exists_of_findSome?_eq_some found
  exact typed.visible layer member _ (mem_of_lookup found)

theorem extend (typed : EnvTyped globals s set env) (extended : Extends s.size s s')
    (more : set ⊆ set') : EnvTyped globals s' set' env :=
  ⟨fun layer member entry listed => (typed.visible layer member entry listed).extend extended more,
    fun owner own => Nat.lt_of_lt_of_le (typed.owner owner own) extended.more⟩

theorem inner (typed : EnvTyped globals s set env) : EnvTyped globals s set env.inner := by
  refine ⟨fun layer member entry listed => ?_, typed.owner⟩
  rcases List.mem_cons.mp member with new | older
  · subst new
    cases listed
  · exact typed.visible layer older entry listed

theorem named {entries : List (String × SymbolId)} (typed : EnvTyped globals s set env)
    (named : Named entries env env')
    (visible : ∀ entry ∈ entries, Visible globals s env.owner set entry.2) :
    EnvTyped globals s set env' := by
  refine ⟨fun layer member entry listed => ?_, fun owner own => typed.owner owner ?_⟩
  · rw [named.owner]
    rcases List.mem_cons.mp member with rfl | outer
    · rw [named.names] at listed
      rcases List.mem_append.mp listed with older | new
      · exact typed.visible _ List.mem_cons_self entry older
      · exact visible entry new
    · rw [named.outer] at outer
      exact typed.visible layer (List.mem_cons_of_mem _ outer) entry listed
  · rw [← named.owner, own]

theorem body {params : List (Binding .parsed)} {ids : List SymbolId} {function : SymbolId}
    {returns : Ty} {scope : ScopeId} (typed : EnvTyped globals s set env) (kinds : WellKinded s)
    (younger : ∀ around, env.owner = some around → around < function)
    (known : function < s.size)
    (isFunction : (s.get function).kind = .function ids returns scope) :
    EnvTyped globals s [] (env.body params ids function) := by
  refine ⟨fun layer member entry listed => ?_, fun owner own => ?_⟩
  · rcases List.mem_cons.mp member with here | outer
    · subst here
      have given : entry.2 ∈ ids := (List.of_mem_zip listed).2
      obtain ⟨index, found⟩ := List.getElem?_of_mem given
      obtain ⟨bound, kind, owned⟩ := (kinds function).param ids returns scope isFunction index _ found
      refine ⟨bound, by simp [kind], ?_, by simp [kind, SymbolKind.role]⟩
      intro index' kind'
      rw [kind] at kind'
      cases kind'
      exact ⟨function, function, ids, returns, scope, rfl, owned, Nat.le_refl _, known, isFunction,
        found⟩
    · exact (typed.visible layer outer entry listed).enter younger
  · cases own
    exact known

end EnvTyped

structure Setting (globals : Globals) (env : Env) (s s' : Symbols) (set : List SymbolId) : Prop where
  finishes : Finishes globals s'
  kinds : WellKinded s
  env : EnvTyped globals s set env

namespace Setting

variable {globals : Globals} {env : Env} {s s' s'' : Symbols} {set : List SymbolId}

theorem before (setting : Setting globals env s s'' set) (later : Grown s' s'') :
    Setting globals env s s' set :=
  ⟨setting.finishes.before later.ext, setting.kinds, setting.env⟩

theorem after (setting : Setting globals env s s'' set) (earlier : Grown s s') :
    Setting globals env s' s'' set :=
  ⟨setting.finishes, earlier.kinds setting.kinds,
    setting.env.extend earlier.ext (List.Subset.refl _)⟩

end Setting

end Lexical

end LetChain
