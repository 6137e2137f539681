import LetChain.Proofs.Syntax.Reading
import LetChain.Proofs.Typing.Setting

/-! What passes the check is well typed. -/

namespace LetChain

open Stateful (bind_eq_ok lift_eq_ok)

namespace Lexical

open Resolve (PExpr PStmt TExpr TStmt Expected)
open Typing

/-! ### What single checks found -/

section Found

variable {env env' : Env} {s s' : Symbols} {id : SymbolId} {ident : Ident}

theorem value_spec (ran : value env ident s = .ok (id, s')) :
    s = s' ∧ env.symbol? ident.text = some id ∧
      ((∃ index, (s.get id).kind = .param index) ∨ (s.get id).kind = .localVar) ∧
      ((s.get id).owner.isSome → (s.get id).owner = env.owner) := by
  unfold value at ran
  cases found : env.symbol? ident.text with
  | none =>
    rw [found] at ran
    cases ran
  | some sym =>
    rw [found] at ran
    have permitted (ran : (if (s.get sym).owner.isSome = true ∧ (s.get sym).owner ≠ env.owner then
          throw (.bind ⟨ident.span, .captured ident.text⟩)
        else pure sym : Check SymbolId) s = .ok (id, s')) :
        s = s' ∧ sym = id ∧ ((s.get sym).owner.isSome → (s.get sym).owner = env.owner) := by
      split at ran
      · cases ran
      · rename_i free
        cases ran
        simp only [ne_eq, not_and, Decidable.not_not] at free
        exact ⟨rfl, rfl, free⟩
    simp only [Stateful.get_bind] at ran
    cases kind : (s.get sym).kind with
    | param index =>
      rw [kind] at ran
      obtain ⟨rfl, rfl, free⟩ := permitted ran
      exact ⟨rfl, rfl, Or.inl ⟨index, kind⟩, free⟩
    | localVar =>
      rw [kind] at ran
      obtain ⟨rfl, rfl, free⟩ := permitted ran
      exact ⟨rfl, rfl, Or.inr kind, free⟩
    | _ =>
      rw [kind] at ran
      cases ran

theorem role_spec {expected : String} (ran : role env ident expected s = .ok (id, s')) :
    s = s' ∧ env.symbol? ident.text = some id ∧ (s.get id).kind.role = expected := by
  unfold role at ran
  cases found : env.symbol? ident.text with
  | none =>
    rw [found] at ran
    cases ran
  | some sym =>
    rw [found] at ran
    change (if (s.get sym).kind.role = expected then _ else _ : Check SymbolId) s = _ at ran
    split at ran
    · rename_i same
      cases ran
      exact ⟨rfl, rfl, same⟩
    · cases ran

theorem blockValue_spec {body : Block .typed} {ty : Ty}
    (ran : blockValue body s = .ok (ty, s')) : body.ty = some ty ∧ s = s' := by
  unfold blockValue at ran
  cases found : body.ty with
  | none =>
    rw [found] at ran
    cases ran
  | some ty =>
    rw [found] at ran
    cases ran
    exact ⟨rfl, rfl⟩

theorem isSource_spec {source : TExpr} {elementType : TypeRef} {declared : Ty} {done : Unit}
    (ran : isSource source elementType declared s = .ok (done, s')) :
    source.ty.element? = some declared ∧ s = s' := by
  unfold isSource at ran
  cases found : source.ty.element? with
  | none =>
    rw [found] at ran
    cases ran
  | some actual =>
    rw [found] at ran
    obtain ⟨rfl, rfl⟩ := require_eq_ok.mp ran
    exact ⟨rfl, rfl⟩

theorem addLocal_spec {ty : Ty} (ran : addLocal env ident ty s = .ok ((env', id), s')) :
    id = s.size ∧ s' = s.push ⟨ident.text, ty, .localVar, ident.span, env.owner⟩ ∧
      Named [(ident.text, id)] env env' := by
  unfold addLocal at ran
  obtain ⟨_, _, added, ran⟩ := bind_eq_ok.mp ran
  obtain ⟨_, _, named, ran⟩ := bind_eq_ok.mp ran
  cases ran
  cases added
  obtain ⟨declared, rfl⟩ := lift_eq_ok.mp named
  exact ⟨rfl, rfl, .declare declared⟩

end Found

/-! ### Parts of a tree -/

def Provides (globals : Globals) (declared : List Declaration) : Prop :=
  ∀ function, .function function ∈ declared → function ∈ globals.functions

def Checked (env : Env) (s s' : Symbols) (declared : List Declaration)
    (typed : Globals → SymbolId → List SymbolId → Prop) : Prop :=
  ∀ globals owner set, env.owner = some owner → Setting globals env s s' set →
    Provides globals declared →
    typed globals owner set ∧ ∀ declaration ∈ declared, DeclarationTyped globals declaration

namespace Checked

variable {env : Env} {s s₁ s₂ : Symbols} {declared declared' : List Declaration}
  {typed typed' : Globals → SymbolId → List SymbolId → Prop}

theorem nil (env : Env) (s : Symbols) : Checked env s s [] fun _ _ _ => True :=
  fun _ _ _ _ _ _ => ⟨trivial, nofun⟩

theorem mono (checked : Checked env s s₁ declared typed)
    (stronger : ∀ globals owner set, env.owner = some owner → Setting globals env s s₁ set →
      typed globals owner set → typed' globals owner set) :
    Checked env s s₁ declared typed' := by
  intro globals owner set inside setting provides
  obtain ⟨holds, declarations⟩ := checked globals owner set inside setting provides
  exact ⟨stronger globals owner set inside setting holds, declarations⟩

theorem append (left : Checked env s s₁ declared typed)
    (right : Checked env s₁ s₂ declared' typed') (grown : Grown s s₁) (grown' : Grown s₁ s₂) :
    Checked env s s₂ (declared ++ declared') fun globals owner set =>
      typed globals owner set ∧ typed' globals owner set := by
  intro globals owner set inside setting provides
  obtain ⟨holds, declarations⟩ := left globals owner set inside (setting.before grown')
    fun function member => provides function (List.mem_append_left _ member)
  obtain ⟨holds', declarations'⟩ := right globals owner set inside (setting.after grown)
    fun function member => provides function (List.mem_append_right _ member)
  exact ⟨⟨holds, holds'⟩, List.forall_mem_append.mpr ⟨declarations, declarations'⟩⟩

theorem inner (checked : Checked env.inner s s₁ declared typed) :
    Checked env s s₁ declared typed :=
  fun globals owner set inside setting =>
    checked globals owner set inside ⟨setting.finishes, setting.kinds, setting.env.inner⟩

end Checked

theorem EnvTyped.addLocal {globals : Globals} {env env' : Env} {s s' : Symbols}
    {set : List SymbolId} {ident : Ident} {ty : Ty} {sym owner : SymbolId}
    (typed : EnvTyped globals s set env) (inside : env.owner = some owner)
    (ran : Lexical.addLocal env ident ty s = .ok ((env', sym), s')) :
    EnvTyped globals s' (sym :: set) env' := by
  obtain ⟨rfl, rfl, named⟩ := addLocal_spec ran
  have older := typed.extend (Extends.push s ⟨ident.text, ty, .localVar, ident.span, env.owner⟩)
    (List.subset_cons_self s.size set)
  refine older.named named (List.forall_mem_singleton.mpr ?_)
  have found : Symbols.get (s.push ⟨ident.text, ty, .localVar, ident.span, env.owner⟩) s.size =
      ⟨ident.text, ty, .localVar, ident.span, env.owner⟩ := by
    rw [Symbols.get_push, if_pos rfl]
  refine ⟨by simp, fun _ => ?_, by simp [found], by simp [found, SymbolKind.role]⟩
  exact ⟨owner, owner, inside, by rw [found, inside], Nat.le_refl _, fun _ => List.mem_cons_self⟩

theorem Checked.addLocal {env base inside : Env} {s s₁ s₂ s₃ : Symbols} {ident : Ident} {ty : Ty}
    {sym : SymbolId} {declared declared' : List Declaration}
    {typed typed' : Globals → SymbolId → List SymbolId → Prop}
    (first : Checked env s s₁ declared typed)
    (ran : Lexical.addLocal base ident ty s₁ = .ok ((inside, sym), s₂))
    (next : Checked inside s₂ s₃ declared' typed')
    (sameOwner : base.owner = env.owner)
    (within : ∀ globals s set, EnvTyped globals s set env → EnvTyped globals s set base)
    (grown : Grown s s₁) (grown' : Grown s₂ s₃) :
    Checked env s s₃ (.localVar sym :: (declared ++ declared')) fun globals owner set =>
      typed globals owner set ∧ typed' globals owner (sym :: set) ∧
        (globals.symbol sym).kind = .localVar ∧ (globals.symbol sym).ty = ty := by
  have added := Grows.addLocal _ _ _ _ _ _ ran
  obtain ⟨symEq, s₂Eq, named⟩ := addLocal_spec ran
  have bound : sym < s₂.size := by
    rw [s₂Eq, symEq]
    simp
  have found : s₂.get sym = ⟨ident.text, ty, .localVar, ident.span, base.owner⟩ := by
    rw [s₂Eq, symEq, Symbols.get_push, if_pos rfl]
  intro globals owner set inOwner setting provides
  obtain ⟨holds, declarations⟩ := first globals owner set inOwner
    (setting.before (added.trans grown'))
    fun function member => provides function (by simp [member])
  have setting₁ := setting.after grown
  have inBase : base.owner = some owner := sameOwner.trans inOwner
  have env' := (within _ _ _ setting₁.env).addLocal inBase ran
  obtain ⟨holds', declarations'⟩ := next globals owner (sym :: set)
    (named.owner.trans inBase) ⟨setting.finishes, added.kinds setting₁.kinds, env'⟩
    fun function member => provides function (by simp [member])
  have final : globals.symbol sym = (s₂.get sym).forgetScope :=
    setting.finishes.before grown'.ext sym bound
  exact ⟨⟨holds, holds', by rw [final, found]; rfl, by rw [final, found]; rfl⟩,
    List.forall_mem_cons.mpr ⟨trivial, List.forall_mem_append.mpr ⟨declarations, declarations'⟩⟩⟩

theorem Setting.readable {globals : Globals} {env : Env} {s : Symbols} {set : List SymbolId}
    {owner id : SymbolId} {name : String} (setting : Setting globals env s s set)
    (inside : env.owner = some owner) (found : env.symbol? name = some id)
    (kind : (∃ index, (s.get id).kind = .param index) ∨ (s.get id).kind = .localVar)
    (free : (s.get id).owner.isSome → (s.get id).owner = env.owner) :
    Readable globals owner set id := by
  have visible := setting.env.lookup found
  have final := setting.finishes id visible.bound
  rcases kind with ⟨index, kind⟩ | kind
  · obtain ⟨around, inner, params, returns, scope, isOwner, owned, older, known, isFunction, place⟩ :=
      visible.param index kind
    have own : around = owner := by
      have same := free (by simp [owned])
      rw [owned, inside] at same
      exact Option.some.inj same
    subst own
    exact .param (setting.finishes.isFunction known isFunction) place
      (by rw [final, Symbol.forgetScope, kind]; rfl)
  · obtain ⟨around, inner, isOwner, owned, older, assigned⟩ := visible.localVar kind
    refine .localVar (by rw [final, Symbol.forgetScope, kind]; rfl) (assigned ?_)
    have same := free (by simp [owned])
    rw [owned, isOwner] at same
    exact Option.some.inj same

theorem expectedArgs_types (s : Symbols) (name : String) (params : List SymbolId) :
    (Resolve.expectedArgs s name params).map (·.1) = params.map fun id => (s.get id).ty := by
  calc (Resolve.expectedArgs s name params).map (·.1)
      = (params.zipIdx.map Prod.fst).map fun id => (s.get id).ty := by
        rw [Resolve.expectedArgs, List.map_map, List.map_map]
        rfl
    _ = params.map fun id => (s.get id).ty := by rw [List.zipIdx_map_fst]

theorem fieldNamed_spec {s : Symbols} {record id : SymbolId} {name : String} (kinds : WellKinded s)
    (found : Resolve.fieldNamed? s record name = some id) :
    ∃ fields index, (s.get record).kind = .record fields ∧ record < s.size ∧
      fields[index]? = some id ∧ id < s.size ∧ (s.get id).kind = .field record index := by
  have member : id ∈ s.fields record := List.mem_of_find?_eq_some found
  unfold Symbols.fields Symbol.fields at member
  cases kind : (s.get record).kind with
  | record fields =>
    rw [kind] at member
    obtain ⟨index, place⟩ := List.getElem?_of_mem member
    obtain ⟨bound, isField⟩ := (kinds record).field fields kind index id place
    exact ⟨fields, index, rfl, Symbols.bound_of_kind (by simp [kind]), place, bound, isField⟩
  | _ =>
    rw [kind] at member
    cases member

theorem exprs_types {env : Env} {args : List PExpr} {expected : List Expected} {s s' : Symbols}
    {args' : List TExpr} (ran : exprs env args expected s = .ok (args', s'))
    (length : args.length = expected.length) : args'.map Expr.ty = expected.map (·.1) := by
  induction args generalizing expected s args' with
  | nil =>
    cases expected with
    | nil =>
      cases ran
      rfl
    | cons first rest => simp at length
  | cons arg rest ih =>
    cases expected with
    | nil => simp at length
    | cons first expected =>
      obtain ⟨ty, mismatch⟩ := first
      rw [exprs] at ran
      obtain ⟨arg', s₁, ranArg, ran⟩ := bind_eq_ok.mp ran
      obtain ⟨_, s₂, required, ran⟩ := bind_eq_ok.mp ran
      obtain ⟨args, s₃, ranRest, ran⟩ := bind_eq_ok.mp ran
      cases ran
      obtain ⟨same, rfl⟩ := require_eq_ok.mp required
      simp [same, ih ranRest (by simpa using length)]

/-! ### Statements -/

/-- Every function and record among the statements has its symbol, and these are younger than the
function around them. -/
structure Assigned (s : Symbols) (owner : Option SymbolId) (stmts : List PStmt)
    (ids : List (Option SymbolId)) : Prop where
  has : ∀ pair ∈ stmts.zip ids, HasSymbol s pair.1 pair.2
  younger : ∀ pair ∈ stmts.zip ids, pair.1.IsDeclaration → ∀ around, owner = some around →
    around < pair.2.getD 0
  length : ids.length = stmts.length

def sets : TStmt → List SymbolId
  | .letIn _ _ _ _ _ sym => [sym]
  | _ => []

theorem checkStmt_func {env env' : Env} {s s' : Symbols} {id : SymbolId} {name : Ident}
    {params : List (Binding .parsed)} {returns : TypeRef} {body : Block .parsed} {span : Span}
    {sym : Unit} {stmt' : TStmt}
    (ran : checkStmt env id (.func name params returns body span sym) s = .ok ((stmt', env'), s')) :
    env = env' ∧ ∃ ids returnType scope body', (s.get id).kind = .function ids returnType scope ∧
      block (env.body params ids id) body s = .ok (body', s') ∧ body'.ty = some returnType ∧
      stmt' = .func name (Resolve.bindAll params ids) returns body' span id := by
  rw [checkStmt] at ran
  obtain ⟨_, _, got, ran⟩ := bind_eq_ok.mp ran
  cases got
  cases kind : (s.get id).kind with
  | function ids returnType scope =>
    rw [kind] at ran
    obtain ⟨body', s₁, ranBody, ran⟩ := bind_eq_ok.mp ran
    obtain ⟨bodyType, _, typed, ran⟩ := bind_eq_ok.mp ran
    obtain ⟨_, _, required, ran⟩ := bind_eq_ok.mp ran
    cases ran
    obtain ⟨typeEq, rfl⟩ := blockValue_spec typed
    obtain ⟨rfl, rfl⟩ := require_eq_ok.mp required
    exact ⟨rfl, ids, bodyType, scope, body', rfl, ranBody, typeEq, rfl⟩
  | _ =>
    rw [kind] at ran
    cases ran

theorem function_declared {env : Env} {s s' : Symbols} {stmts : List PStmt}
    {ids : List (Option SymbolId)} {stmts' : List TStmt}
    (ran : checkStmts env stmts ids s = .ok (stmts', s')) :
    ∀ entry ∈ (stmts.zip ids).filterMap functionEntry?, ∃ function,
      .function function ∈ Stmt.allDeclarations stmts' ∧ function.sym = entry.2 := by
  induction stmts generalizing env s ids stmts' with
  | nil => simp
  | cons first rest ih =>
    rw [checkStmts] at ran
    obtain ⟨⟨stmt, env₁⟩, s₁, ranFirst, ran⟩ := bind_eq_ok.mp ran
    obtain ⟨stmts, s₂, ranRest, ran⟩ := bind_eq_ok.mp ran
    cases ran
    cases ids with
    | nil => simp
    | cons id? ids =>
      intro entry member
      obtain ⟨pair, listed, isEntry⟩ := List.mem_filterMap.mp member
      rcases List.mem_cons.mp listed with rfl | later
      · cases first with
        | func name params returns body span sym =>
          cases id? with
          | none => cases isEntry
          | some own =>
            cases isEntry
            obtain ⟨-, _, _, _, body', -, -, -, rfl⟩ := checkStmt_func ranFirst
            exact ⟨_, List.mem_append_left _ List.mem_cons_self, rfl⟩
        | _ => cases isEntry
      · obtain ⟨function, declared, same⟩ :=
          ih ranRest entry (List.mem_filterMap.mpr ⟨pair, later, isEntry⟩)
        exact ⟨function, List.mem_append_right _ declared, same⟩

structure StmtChecked (env env' : Env) (s s' : Symbols) (id : SymbolId) (stmt : PStmt)
    (stmt' : TStmt) : Prop where
  owner : env'.owner = env.owner
  typed : ∀ globals owner set, env.owner = some owner ∨ stmt.IsDeclaration →
    Setting globals env s s' set → HasSymbol s stmt (some id) →
    (stmt.IsDeclaration → ∀ around, env.owner = some around → around < id) →
    Provides globals stmt'.declarations →
    (∀ rest, StmtsTyped globals owner (sets stmt' ++ set) rest →
      StmtsTyped globals owner set (stmt' :: rest)) ∧
    EnvTyped globals s' (sets stmt' ++ set) env' ∧
    ∀ declaration ∈ stmt'.declarations, DeclarationTyped globals declaration

def StmtsChecked (env : Env) (s s' : Symbols) (stmts : List PStmt) (ids : List (Option SymbolId))
    (stmts' : List TStmt) : Prop :=
  ∀ globals owner set, (env.owner = some owner ∨ ∀ stmt ∈ stmts, stmt.IsDeclaration) →
    Setting globals env s s' set → Assigned s env.owner stmts ids →
    Provides globals (Stmt.allDeclarations stmts') →
    StmtsTyped globals owner set stmts' ∧
    ∀ declaration ∈ Stmt.allDeclarations stmts', DeclarationTyped globals declaration

theorem StmtsChecked.hoisted {env inside : Env} {s s₁ s₂ : Symbols} {stmts : List PStmt}
    {ids : List (Option SymbolId)} {stmts' : List TStmt}
    (checked : StmtsChecked inside s₁ s₂ stmts ids stmts')
    (ranHoist : hoist env stmts s = .ok ((inside, ids), s₁))
    (ranStmts : checkStmts inside stmts ids s₁ = .ok (stmts', s₂)) (globals : Globals)
    (owner : SymbolId) (set : List SymbolId)
    (inOwner : env.owner = some owner ∨ ∀ stmt ∈ stmts, stmt.IsDeclaration)
    (setting : Setting globals env s s₂ set)
    (provides : Provides globals (Stmt.allDeclarations stmts')) :
    StmtsTyped globals owner set stmts' ∧
      ∀ declaration ∈ Stmt.allDeclarations stmts', DeclarationTyped globals declaration := by
  have hoisted := hoist_spec ranHoist
  have setting₁ := setting.after (Grows.hoist _ _ _ _ _ ranHoist)
  have sameOwner : inside.owner = env.owner := hoisted.named.owner
  have insideTyped : EnvTyped globals s₁ set inside := by
    refine setting₁.env.named hoisted.named fun entry listed => ?_
    rcases List.mem_append.mp listed with isRecord | isFunction
    · obtain ⟨name, declared, span, sym, paired, -⟩ := mem_recordEntries isRecord
      obtain ⟨bound, fields, found, -⟩ := (hoisted.has paired).record
      exact ⟨bound, by simp [found], by simp [found], by simp [found, SymbolKind.role]⟩
    · obtain ⟨name, declared, returns, body, span, sym, paired, -⟩ := mem_functionEntries isFunction
      obtain ⟨bound, params, ty, found, -⟩ := (hoisted.has paired).func
      refine ⟨bound, by simp [found], by simp [found], fun _ => ?_⟩
      obtain ⟨function, declared, same⟩ := function_declared ranStmts entry isFunction
      exact ⟨function, provides function declared, same⟩
  have assigned : Assigned s₁ inside.owner stmts ids := by
    refine ⟨fun pair => hoisted.has, fun pair listed declares around isOwner => ?_,
      hoisted.length⟩
    rw [sameOwner] at isOwner
    exact Nat.lt_of_lt_of_le (setting.env.owner around isOwner) (hoisted.above listed declares)
  exact checked globals owner set (by rw [sameOwner]; exact inOwner)
    ⟨setting.finishes, setting₁.kinds, insideTyped⟩ assigned provides

/-! ### Trees -/

mutual

theorem expr_checked : ∀ (e : PExpr) {env : Env} {s s' : Symbols} {e' : TExpr},
    expr env e s = .ok (e', s') →
    Checked env s s' e'.declarations fun globals owner set => HasType globals owner set e'
  | .number .., env, s, _, _, ran => by
    cases ran
    exact (Checked.nil env s).mono fun _ _ _ _ _ _ => .number
  | .string .., env, s, _, _, ran => by
    cases ran
    exact (Checked.nil env s).mono fun _ _ _ _ _ _ => .string
  | .bool .., env, s, _, _, ran => by
    cases ran
    exact (Checked.nil env s).mono fun _ _ _ _ _ _ => .bool
  | .named name _ span _, env, s, s', e', ran => by
    rw [expr] at ran
    obtain ⟨id, s₁, ranValue, ran⟩ := bind_eq_ok.mp ran
    obtain ⟨_, _, got, ran⟩ := bind_eq_ok.mp ran
    cases ran
    cases got
    obtain ⟨rfl, found, kind, free⟩ := value_spec ranValue
    refine (Checked.nil env s).mono fun globals owner set inside setting _ => ?_
    have visible := setting.env.lookup found
    have final : (s.get id).ty = (globals.symbol id).ty := by
      rw [setting.finishes id visible.bound]
      rfl
    rw [final]
    exact .named (setting.readable inside found kind free)
  | .binary op lhs rhs span _, env, s, s', e', ran => by
    rw [expr] at ran
    obtain ⟨lhs', s₁, ranLeft, ran⟩ := bind_eq_ok.mp ran
    obtain ⟨rhs', s₂, ranRight, ran⟩ := bind_eq_ok.mp ran
    have both := (expr_checked lhs ranLeft).append (expr_checked rhs ranRight)
      (Grows.expr _ _ _ _ _ ranLeft) (Grows.expr _ _ _ _ _ ranRight)
    cases result : Resolve.resultType? op lhs'.ty rhs'.ty with
    | none =>
      rw [result] at ran
      cases ran
    | some ty =>
      rw [result] at ran
      cases ran
      exact both.mono fun _ _ _ _ _ ⟨left, right⟩ => .binary left right result
  | .range first limit step span _, env, s, s', e', ran => by
    rw [expr] at ran
    obtain ⟨first', s₁, ranFirst, ran⟩ := bind_eq_ok.mp ran
    obtain ⟨_, _, isFirst, ran⟩ := bind_eq_ok.mp ran
    obtain ⟨limit', s₂, ranLimit, ran⟩ := bind_eq_ok.mp ran
    obtain ⟨_, _, isLimit, ran⟩ := bind_eq_ok.mp ran
    obtain ⟨firstNumber, rfl⟩ := require_eq_ok.mp isFirst
    obtain ⟨limitNumber, rfl⟩ := require_eq_ok.mp isLimit
    have grown := Grows.expr _ _ _ _ _ ranFirst
    have grown' := Grows.expr _ _ _ _ _ ranLimit
    have bounds := (expr_checked first ranFirst).append (expr_checked limit ranLimit) grown grown'
    cases step with
    | none =>
      cases ran
      exact bounds.mono fun _ _ _ _ _ ⟨left, right⟩ =>
        .range left firstNumber right limitNumber
    | some step =>
      obtain ⟨step', s₃, ranStep, ran⟩ := bind_eq_ok.mp ran
      obtain ⟨_, _, isStep, ran⟩ := bind_eq_ok.mp ran
      cases ran
      obtain ⟨stepNumber, rfl⟩ := require_eq_ok.mp isStep
      have all := bounds.append (expr_checked step ranStep) (grown.trans grown')
        (Grows.expr _ _ _ _ _ ranStep)
      exact all.mono fun _ _ _ _ _ ⟨⟨left, right⟩, third⟩ =>
        .rangeBy left firstNumber right limitNumber third stepNumber
  | .call name args _ span _, env, s, s', e', ran => by
    rw [expr] at ran
    obtain ⟨id, s₁, ranRole, ran⟩ := bind_eq_ok.mp ran
    obtain ⟨rfl, found, role⟩ := role_spec ranRole
    obtain ⟨params, returns, scope, kind⟩ := SymbolKind.role_eq_function.mp role
    obtain ⟨_, _, got, ran⟩ := bind_eq_ok.mp ran
    cases got
    rw [kind] at ran
    obtain ⟨_, _, arity, ran⟩ := bind_eq_ok.mp ran
    obtain ⟨args', s₂, ranArgs, ran⟩ := bind_eq_ok.mp ran
    cases ran
    obtain ⟨length, rfl⟩ := require_eq_ok.mp arity
    have types := exprs_types ranArgs (by simpa [Resolve.expectedArgs] using length)
    have grown := Grows.exprs _ _ _ _ _ _ ranArgs
    refine (exprs_checked args ranArgs).mono fun globals owner set inside setting typed => ?_
    have visible := setting.env.lookup found
    have finishes := setting.finishes.before grown.ext
    refine .call (finishes.isFunction visible.bound kind) (visible.function role) typed ?_
    rw [types, finishes.types (setting.kinds.param_bound kind), expectedArgs_types]
  | .construct name args _ span _, env, s, s', e', ran => by
    rw [expr] at ran
    obtain ⟨id, s₁, ranRole, ran⟩ := bind_eq_ok.mp ran
    obtain ⟨rfl, found, role⟩ := role_spec ranRole
    obtain ⟨fields, kind⟩ := SymbolKind.role_eq_type.mp role
    obtain ⟨_, _, got, ran⟩ := bind_eq_ok.mp ran
    cases got
    obtain ⟨_, _, arity, ran⟩ := bind_eq_ok.mp ran
    obtain ⟨args', s₂, ranArgs, ran⟩ := bind_eq_ok.mp ran
    obtain ⟨_, _, got', ran⟩ := bind_eq_ok.mp ran
    cases ran
    cases got'
    obtain ⟨length, rfl⟩ := require_eq_ok.mp arity
    have fieldsEq : s.fields id = fields := by simp [Symbols.fields, Symbol.fields, kind]
    rw [fieldsEq] at ranArgs length
    have types := exprs_types ranArgs (by simpa [Resolve.expectedFields] using length)
    have grown := Grows.exprs _ _ _ _ _ _ ranArgs
    refine (exprs_checked args ranArgs).mono fun globals owner set inside setting typed => ?_
    have visible := setting.env.lookup found
    have finishes := setting.finishes.before grown.ext
    have named : (globals.symbol id).name = (s.get id).name := by
      rw [finishes id visible.bound]
      rfl
    rw [grown.ext.same id visible.bound, (setting.kinds id).record fields kind, ← named]
    refine .construct (finishes.isRecord visible.bound kind) typed ?_
    rw [types, finishes.types (setting.kinds.field_bound kind)]
    simp [Resolve.expectedFields]
  | .member base field _ span _, env, s, s', e', ran => by
    rw [expr] at ran
    obtain ⟨base', s₁, ranBase, ran⟩ := bind_eq_ok.mp ran
    cases ty : base'.ty with
    | record record name =>
      rw [ty] at ran
      obtain ⟨_, _, got, ran⟩ := bind_eq_ok.mp ran
      cases got
      cases found : Resolve.fieldNamed? s₁ record field.text with
      | none =>
        rw [found] at ran
        cases ran
      | some id =>
        rw [found] at ran
        cases ran
        have grown := Grows.expr _ _ _ _ _ ranBase
        refine (expr_checked base ranBase).mono fun globals owner set inside setting typed => ?_
        obtain ⟨fields, index, kind, known, place, bound, isField⟩ :=
          fieldNamed_spec (grown.kinds setting.kinds) found
        have final := setting.finishes id bound
        have typeEq : (s'.get id).ty = (globals.symbol id).ty := by
          rw [final]
          rfl
        rw [typeEq]
        exact .member typed ty (setting.finishes.isRecord known kind) place
          (by rw [final, Symbol.forgetScope, isField]; rfl)
    | _ =>
      rw [ty] at ran
      cases ran
  | .ifElse cond yes no span _, env, s, s', e', ran => by
    rw [expr] at ran
    obtain ⟨cond', s₁, ranCond, ran⟩ := bind_eq_ok.mp ran
    obtain ⟨_, _, isCond, ran⟩ := bind_eq_ok.mp ran
    obtain ⟨yes', s₂, ranYes, ran⟩ := bind_eq_ok.mp ran
    obtain ⟨yesType, _, typedYes, ran⟩ := bind_eq_ok.mp ran
    obtain ⟨no', s₃, ranNo, ran⟩ := bind_eq_ok.mp ran
    obtain ⟨noType, _, typedNo, ran⟩ := bind_eq_ok.mp ran
    obtain ⟨_, _, sameType, ran⟩ := bind_eq_ok.mp ran
    cases ran
    obtain ⟨boolean, rfl⟩ := require_eq_ok.mp isCond
    obtain ⟨yesEq, rfl⟩ := blockValue_spec typedYes
    obtain ⟨noEq, rfl⟩ := blockValue_spec typedNo
    obtain ⟨rfl, rfl⟩ := require_eq_ok.mp sameType
    have grown := Grows.expr _ _ _ _ _ ranCond
    have grownYes := Grows.block _ _ _ _ _ ranYes
    have grownNo := Grows.block _ _ _ _ _ ranNo
    have all := ((expr_checked cond ranCond).append (block_checked yes ranYes) grown grownYes).append
      (block_checked no ranNo) (grown.trans grownYes) grownNo
    exact all.mono fun _ _ _ _ _ ⟨⟨left, middle⟩, right⟩ =>
      .ifElse left boolean (middle yesType yesEq) (right yesType noEq)
  | .ifOnly .., _, _, _, _, ran => by cases ran
  | .foreach .., _, _, _, _, ran => by cases ran
  | .block body _, env, s, s', e', ran => by
    rw [expr] at ran
    obtain ⟨body', s₁, ranBody, ran⟩ := bind_eq_ok.mp ran
    obtain ⟨ty, _, typed, ran⟩ := bind_eq_ok.mp ran
    cases ran
    obtain ⟨typeEq, rfl⟩ := blockValue_spec typed
    exact (block_checked body ranBody).mono fun _ _ _ _ _ typed => .block (typed ty typeEq)

theorem exprs_checked : ∀ (args : List PExpr) {expected : List Expected} {env : Env}
    {s s' : Symbols} {args' : List TExpr}, exprs env args expected s = .ok (args', s') →
    Checked env s s' (Expr.allDeclarations args') fun globals owner set =>
      HaveTypes globals owner set args'
  | [], _, env, s, _, _, ran => by
    cases ran
    exact (Checked.nil env s).mono fun _ _ _ _ _ _ => .nil
  | _ :: _, [], env, s, _, _, ran => by
    cases ran
    exact (Checked.nil env s).mono fun _ _ _ _ _ _ => .nil
  | arg :: rest, (ty, mismatch) :: expected, env, s, s', args', ran => by
    rw [exprs] at ran
    obtain ⟨arg', s₁, ranArg, ran⟩ := bind_eq_ok.mp ran
    obtain ⟨_, _, required, ran⟩ := bind_eq_ok.mp ran
    obtain ⟨args, s₂, ranRest, ran⟩ := bind_eq_ok.mp ran
    cases ran
    obtain ⟨-, rfl⟩ := require_eq_ok.mp required
    exact ((expr_checked arg ranArg).append (exprs_checked rest ranRest)
      (Grows.expr _ _ _ _ _ ranArg) (Grows.exprs _ _ _ _ _ _ ranRest)).mono
      fun _ _ _ _ _ ⟨first, others⟩ => .cons first others

theorem chain_checked : ∀ (bodies : List PExpr) {name : Ident} {declared : Ty} {env : Env}
    {s s' : Symbols} {bodies' : List TExpr}, chain env name declared bodies s = .ok (bodies', s') →
    Checked env s s' (Expr.allDeclarations bodies') fun globals owner set =>
      ChainHasType globals owner set declared bodies'
  | [], name, declared, env, s, s', bodies', ran => by
    cases ran
    exact (Checked.nil env s).mono fun _ _ _ _ _ _ => .nil
  | body :: rest, name, declared, env, s, s', bodies', ran => by
    have followed {body' : TExpr} {s₁ : Symbols}
        {typed : Globals → SymbolId → List SymbolId → Prop}
        (checked : Checked env s s₁ body'.declarations typed) (grown : Grown s s₁)
        (ran : (do
          isLetBody name declared body'
          let bodies ← chain env name declared rest
          return body' :: bodies : Check (List TExpr)) s₁ = .ok (bodies', s'))
        (build : ∀ globals owner set rest, typed globals owner set → body'.ty = declared →
          ChainHasType globals owner set declared rest →
          ChainHasType globals owner set declared (body' :: rest)) :
        Checked env s s' (Expr.allDeclarations bodies') fun globals owner set =>
          ChainHasType globals owner set declared bodies' := by
      obtain ⟨_, _, isBody, ran⟩ := bind_eq_ok.mp ran
      obtain ⟨bodies, s₂, ranRest, ran⟩ := bind_eq_ok.mp ran
      cases ran
      obtain ⟨sameType, rfl⟩ := require_eq_ok.mp isBody
      exact (checked.append (chain_checked rest ranRest) grown
        (Grows.chain _ _ _ _ _ _ _ ranRest)).mono
        fun globals owner set _ _ ⟨holds, others⟩ =>
          build globals owner set bodies holds sameType others
    have plain (ran : (do
          let body ← expr env body
          isLetBody name declared body
          let bodies ← chain env name declared rest
          return body :: bodies : Check (List TExpr)) s = .ok (bodies', s')) :
        Checked env s s' (Expr.allDeclarations bodies') fun globals owner set =>
          ChainHasType globals owner set declared bodies' := by
      obtain ⟨body', s₁, ranBody, ran⟩ := bind_eq_ok.mp ran
      exact followed (expr_checked body ranBody) (Grows.expr _ _ _ _ _ ranBody) ran
        fun globals owner set rest holds sameType others => .plain holds sameType others
    cases body with
    | ifOnly cond yes span ty =>
      rw [chain] at ran
      obtain ⟨cond', s₁, ranCond, ran⟩ := bind_eq_ok.mp ran
      obtain ⟨_, _, isCond, ran⟩ := bind_eq_ok.mp ran
      obtain ⟨yes', s₂, ranYes, ran⟩ := bind_eq_ok.mp ran
      obtain ⟨yesType, _, typedYes, ran⟩ := bind_eq_ok.mp ran
      obtain ⟨boolean, rfl⟩ := require_eq_ok.mp isCond
      obtain ⟨yesEq, rfl⟩ := blockValue_spec typedYes
      have grown := Grows.expr _ _ _ _ _ ranCond
      have grown' := Grows.block _ _ _ _ _ ranYes
      refine followed ((expr_checked cond ranCond).append (block_checked yes ranYes) grown grown')
        (grown.trans grown') ran ?_
      rintro globals owner set rest ⟨condHolds, yesHolds⟩ rfl others
      exact .ifOnly condHolds boolean (yesHolds yesType yesEq) others
    | «foreach» element elementType source body sym span ty =>
      rw [chain] at ran
      obtain ⟨elementTy, _, typedElement, ran⟩ := bind_eq_ok.mp ran
      obtain ⟨source', s₁, ranSource, ran⟩ := bind_eq_ok.mp ran
      obtain ⟨_, _, isSequence, ran⟩ := bind_eq_ok.mp ran
      obtain ⟨⟨inside, sym⟩, s₂, ranLocal, ran⟩ := bind_eq_ok.mp ran
      obtain ⟨body', s₃, ranBody, ran⟩ := bind_eq_ok.mp ran
      obtain ⟨bodyType, _, typedBody, ran⟩ := bind_eq_ok.mp ran
      obtain ⟨-, rfl⟩ := lift_eq_ok.mp typedElement
      obtain ⟨elementEq, rfl⟩ := isSource_spec isSequence
      obtain ⟨bodyEq, rfl⟩ := blockValue_spec typedBody
      have grown := Grows.expr _ _ _ _ _ ranSource
      have added := Grows.addLocal _ _ _ _ _ _ ranLocal
      have grown' := Grows.block _ _ _ _ _ ranBody
      refine followed ((expr_checked source ranSource).addLocal ranLocal
        (block_checked body ranBody) rfl (fun _ _ _ typed => typed.inner) grown grown')
        ((grown.trans added).trans grown') ran ?_
      rintro globals owner set rest ⟨sourceHolds, bodyHolds, kind, typeEq⟩ rfl others
      exact .foreach sourceHolds (by rw [elementEq, typeEq]) kind (bodyHolds bodyType bodyEq)
        others
    | _ => exact plain ran

theorem block_checked : ∀ (body : Block .parsed) {env : Env} {s s' : Symbols}
    {body' : Block .typed}, block env body s = .ok (body', s') →
    Checked env s s' body'.declarations fun globals owner set =>
      ∀ ty, body'.ty = some ty → BlockHasType globals owner set body' ty
  | ⟨stmts, span, _⟩, env, s, s', body', ran => by
    rw [block] at ran
    obtain ⟨⟨inside, ids⟩, s₁, ranHoist, ran⟩ := bind_eq_ok.mp ran
    obtain ⟨stmts', s₂, ranStmts, ran⟩ := bind_eq_ok.mp ran
    cases ran
    intro globals owner set inOwner setting provides
    obtain ⟨stmtsTyped, declarations⟩ := (stmts_checked stmts ranStmts).hoisted ranHoist ranStmts
      globals owner set (Or.inl inOwner) ⟨setting.finishes, setting.kinds, setting.env.inner⟩ provides
    refine ⟨fun ty last => ?_, declarations⟩
    change Resolve.lastType? stmts' = some ty at last
    rw [last]
    exact .mk stmtsTyped last

theorem stmts_checked : ∀ (stmts : List PStmt) {ids : List (Option SymbolId)} {env : Env}
    {s s' : Symbols} {stmts' : List TStmt}, checkStmts env stmts ids s = .ok (stmts', s') →
    StmtsChecked env s s' stmts ids stmts'
  | [], ids, env, s, s', stmts', ran => by
    cases ran
    exact fun _ _ _ _ _ _ _ => ⟨.nil, nofun⟩
  | first :: rest, ids, env, s, s', stmts', ran => by
    rw [checkStmts] at ran
    obtain ⟨⟨stmt, env₁⟩, s₁, ranFirst, ran⟩ := bind_eq_ok.mp ran
    obtain ⟨stmts, s₂, ranRest, ran⟩ := bind_eq_ok.mp ran
    cases ran
    have grown := Grows.checkStmt _ _ _ _ _ _ ranFirst
    have grown' := Grows.checkStmts _ _ _ _ _ _ ranRest
    have head := stmt_checked first ranFirst
    intro globals owner set inside setting assigned provides
    cases ids with
    | nil => simpa using assigned.length
    | cons id? ids =>
      obtain ⟨has, hasLater⟩ := List.forall_mem_cons.mp assigned.has
      obtain ⟨younger, youngerLater⟩ := List.forall_mem_cons.mp assigned.younger
      obtain ⟨build, env₁Typed, declarations⟩ := head.typed globals owner set
        (inside.imp_right fun all => all first List.mem_cons_self) (setting.before grown')
        has.given younger fun function member => provides function (List.mem_append_left _ member)
      obtain ⟨restTyped, declarations'⟩ := stmts_checked rest ranRest globals owner
        (sets stmt ++ set)
        (by
          rw [head.owner]
          exact inside.imp_right fun all other member => all other (List.mem_cons_of_mem _ member))
        ⟨setting.finishes, grown.kinds setting.kinds, env₁Typed⟩
        ⟨fun pair listed => (hasLater pair listed).grown grown.ext, by rwa [head.owner],
          by simpa using assigned.length⟩
        fun function member => provides function (List.mem_append_right _ member)
      exact ⟨build stmts restTyped, List.forall_mem_append.mpr ⟨declarations, declarations'⟩⟩

theorem stmt_checked : ∀ (stmt : PStmt) {id : SymbolId} {env env' : Env} {s s' : Symbols}
    {stmt' : TStmt}, checkStmt env id stmt s = .ok ((stmt', env'), s') →
    StmtChecked env env' s s' id stmt stmt'
  | .letIn name type first chained span _, id, env, env', s, s', stmt', ran => by
    rw [checkStmt] at ran
    obtain ⟨declared, _, typed, ran⟩ := bind_eq_ok.mp ran
    obtain ⟨first', s₁, ranFirst, ran⟩ := bind_eq_ok.mp ran
    obtain ⟨_, _, isBody, ran⟩ := bind_eq_ok.mp ran
    obtain ⟨⟨env₂, sym⟩, s₂, ranLocal, ran⟩ := bind_eq_ok.mp ran
    obtain ⟨chained', s₃, ranChain, ran⟩ := bind_eq_ok.mp ran
    cases ran
    obtain ⟨-, rfl⟩ := lift_eq_ok.mp typed
    obtain ⟨sameType, rfl⟩ := require_eq_ok.mp isBody
    have grown := Grows.expr _ _ _ _ _ ranFirst
    have added := Grows.addLocal _ _ _ _ _ _ ranLocal
    have grown' := Grows.chain _ _ _ _ _ _ _ ranChain
    have whole := (expr_checked first ranFirst).inner.addLocal ranLocal
      (chain_checked chained ranChain) rfl (fun _ _ _ typed => typed) grown grown'
    obtain ⟨-, -, named⟩ := addLocal_spec ranLocal
    refine ⟨named.owner, ?_⟩
    intro globals owner set inside setting _ _ provides
    have inOwner : env.owner = some owner := inside.resolve_right (fun wrong => wrong)
    obtain ⟨⟨holds, chainHolds, kind, ty⟩, declarations⟩ :=
      whole globals owner set inOwner setting provides
    refine ⟨fun rest restTyped => ?_, ?_, declarations⟩
    · refine .letIn holds (by rw [sameType, ty]) kind ?_ restTyped
      rw [ty]
      exact chainHolds
    · exact ((setting.after grown).env.addLocal inOwner ranLocal).extend grown'.ext
        (List.Subset.refl _)
  | .func name params returns body span _, id, env, env', s, s', stmt', ran => by
    obtain ⟨rfl, ids, returnType, scope, body', kind, ranBody, typeEq, rfl⟩ := checkStmt_func ran
    have checked := block_checked body ranBody
    have grown := Grows.block _ _ _ _ _ ranBody
    refine ⟨rfl, ?_⟩
    intro globals owner set _ setting has younger provides
    obtain ⟨bound, ids', ty, found, -, names⟩ := has.func
    rw [found] at kind
    cases kind
    have length : ids.length = params.length := by simpa using congrArg List.length names
    have kind : (s.get id).kind = .function ids returnType 0 := by rw [found]
    have inside : EnvTyped globals s [] (env.body params ids id) :=
      setting.env.body setting.kinds (younger trivial) bound kind
    obtain ⟨holds, declarations⟩ := checked globals id [] rfl
      ⟨setting.finishes, setting.kinds, inside⟩
      fun function member => provides function (List.mem_cons_of_mem _ member)
    refine ⟨fun rest restTyped => .func restTyped,
      setting.env.extend grown.ext (List.Subset.refl _), fun declaration member => ?_⟩
    rcases List.mem_cons.mp member with same | inner
    · subst same
      refine ⟨ids, returnType, (setting.finishes.before grown.ext).isFunction bound kind, ?_,
        holds returnType typeEq⟩
      simp [Resolve.bindAll, length]
    · exact declarations declaration inner
  | .record name fields span _, id, env, env', s, s', stmt', ran => by
    rw [checkStmt] at ran
    obtain ⟨_, _, got, ran⟩ := bind_eq_ok.mp ran
    cases ran
    cases got
    refine ⟨rfl, ?_⟩
    intro globals owner set _ setting has _ _
    refine ⟨fun rest restTyped => .record restTyped, setting.env, ?_⟩
    intro declaration member
    obtain rfl := List.mem_singleton.mp member
    obtain ⟨bound, fields, found, -⟩ := has.record
    change (globals.symbol id).name = name.text
    rw [setting.finishes id bound, found]
    rfl
  | .expr value, id, env, env', s, s', stmt', ran => by
    rw [checkStmt] at ran
    obtain ⟨value', s₁, ranValue, ran⟩ := bind_eq_ok.mp ran
    cases ran
    have checked := expr_checked value ranValue
    have grown := Grows.expr _ _ _ _ _ ranValue
    refine ⟨rfl, ?_⟩
    intro globals owner set inside setting _ _ provides
    have inOwner : env.owner = some owner := inside.resolve_right (fun wrong => wrong)
    obtain ⟨holds, declarations⟩ := checked globals owner set inOwner setting provides
    exact ⟨fun rest restTyped => .expr holds restTyped,
      setting.env.extend grown.ext (List.Subset.refl _), declarations⟩

end

end Lexical

theorem Module.check_typed {m : Module .parsed} {names : NameTable} {resolved : Resolved}
    (top : ∀ stmt ∈ m.stmts, stmt.IsDeclaration) (ran : m.check names = .ok resolved) :
    ∀ declaration ∈ resolved.module.declarations,
      Typing.DeclarationTyped resolved.globals declaration := by
  obtain ⟨⟨stmts, symbols⟩, ranAll, ran⟩ := Stateful.except_bind_eq_ok.mp ran
  cases ran
  obtain ⟨⟨env, ids⟩, s₁, ranHoist, ranStmts⟩ := bind_eq_ok.mp ranAll
  have outermost (globals : Globals) :
      Lexical.EnvTyped globals #[] [] (Lexical.Env.builtin names) := by
    constructor
    · intro layer member entry listed
      obtain rfl := List.mem_singleton.mp member
      cases listed
    · intro owner wrong
      cases wrong
  -- No function is around the top level, so any owner will do.
  refine ((Lexical.stmts_checked m.stmts ranStmts).hoisted ranHoist ranStmts _ 0 [] (Or.inr top)
    ⟨fun id _ => rfl, Lexical.WellKinded.empty, outermost _⟩ fun function member => ?_).2
  exact List.mem_filterMap.mpr ⟨_, member, rfl⟩

end LetChain
