import LetChain.Proofs.Typing.Checked
import LetChain.Proofs.Typing.Nodes

/-! Tables of symbols: what the types, owners and kinds of symbols say of other symbols. Hoisting keeps
it so. -/

namespace LetChain

open Stateful (bind_eq_ok lift_eq_ok)

theorem Ty.OfValues.mono {symbol symbol' : SymbolId → Symbol} {ty : Ty}
    (ofValues : ty.OfValues symbol)
    (kept : ∀ id, (symbol id).kind.role = "type" →
      (symbol' id).kind.role = "type" ∧ (symbol' id).name = (symbol id).name) :
    ty.OfValues symbol' := by
  induction ofValues with
  | number => exact .number
  | string => exact .string
  | boolean => exact .boolean
  | seqOf _ ih => exact .seqOf ih
  | record kind named =>
    obtain ⟨role, name⟩ := kept _ (by rw [kind]; rfl)
    obtain ⟨fields, kind'⟩ := SymbolKind.role_eq_type.mp role
    exact .record kind' (name.trans named)

/-- What a symbol's type and owner say, and the record of a field. The fields of a record have
different names. -/
def Symbol.Sound (s : Symbols) (symbol : Symbol) : Prop :=
  match symbol.kind with
  | .record fields => symbol.owner = none ∧ (∀ field ∈ fields, field < s.size) ∧
    (fields.map fun field => (s.get field).name).Nodup
  | .function _ returns _ => symbol.owner = none ∧ symbol.ty = .function ∧ returns.OfValues s.get
  | .param _ | .localVar =>
    (∃ function, symbol.owner = some function ∧ (s.get function).kind.role = "function") ∧
      symbol.ty.OfValues s.get
  | .field record index =>
    symbol.owner = none ∧ (s.get record).kind.role = "type" ∧ index ≤ Resolve.maxIndex ∧
      symbol.ty.OfValues s.get

namespace Lexical

open Resolve (PExpr PStmt TExpr TStmt Expected)

structure Stays (before after : Symbols) : Prop where
  more : before.size ≤ after.size
  name : ∀ id, id < before.size → (after.get id).name = (before.get id).name
  role : ∀ id, id < before.size → (after.get id).kind.role = (before.get id).kind.role

namespace Stays

variable {s s' s'' : Symbols}

theorem refl (s : Symbols) : Stays s s := ⟨Nat.le_refl _, fun _ _ => rfl, fun _ _ => rfl⟩

theorem ofGrown (grown : Grown s s') : Stays s s' := by
  refine ⟨grown.ext.more, ?_, ?_⟩
  · intro id bound
    rw [grown.ext.same id bound]
  · intro id bound
    rw [grown.ext.same id bound]

theorem keeps (stays : Stays s s') {id : SymbolId} {role : String}
    (isRole : (s.get id).kind.role = role) (notLocal : role ≠ "local") :
    id < s.size ∧ (s'.get id).kind.role = role ∧ (s'.get id).name = (s.get id).name := by
  have bound : id < s.size := by
    apply Symbols.bound_of_kind
    intro kind
    rw [kind] at isRole
    exact notLocal isRole.symm
  exact ⟨bound, (stays.role id bound).trans isRole, stays.name id bound⟩

theorem ofValues (stays : Stays s s') {ty : Ty} (ofValues : ty.OfValues s.get) :
    ty.OfValues s'.get :=
  ofValues.mono fun _ role => (stays.keeps role (by decide)).2

theorem symbol (stays : Stays s s') {symbol : Symbol} (sound : symbol.Sound s) :
    symbol.Sound s' := by
  unfold Symbol.Sound at sound ⊢
  cases kind : symbol.kind with
  | record fields =>
    rw [kind] at sound
    obtain ⟨free, bounds, distinct⟩ := sound
    refine ⟨free, fun field member => Nat.lt_of_lt_of_le (bounds field member) stays.more, ?_⟩
    rwa [List.map_congr_left fun field member => stays.name field (bounds field member)]
  | function params returns scope =>
    rw [kind] at sound
    exact ⟨sound.1, sound.2.1, stays.ofValues sound.2.2⟩
  | param index | localVar =>
    rw [kind] at sound
    obtain ⟨⟨function, owned, role⟩, typed⟩ := sound
    exact ⟨⟨function, owned, (stays.keeps role (by decide)).2.1⟩, stays.ofValues typed⟩
  | field record index =>
    rw [kind] at sound
    obtain ⟨free, role, small, typed⟩ := sound
    exact ⟨free, (stays.keeps role (by decide)).2.1, small, stays.ofValues typed⟩

end Stays

/-- All symbols of a table are sound, and the members of functions and records know their places. -/
structure Sound (s : Symbols) : Prop where
  kinds : WellKinded s
  symbols : ∀ id, id < s.size → (s.get id).Sound s

namespace Sound

variable {s : Symbols}

theorem empty : Sound #[] := ⟨WellKinded.empty, by simp⟩

theorem push (sound : Sound s) {symbol : Symbol} (grown : Grown s (s.push symbol))
    (new : symbol.Sound (s.push symbol)) : Sound (s.push symbol) := by
  refine ⟨grown.kinds sound.kinds, fun id bound => ?_⟩
  rw [Symbols.get_push]
  by_cases same : id = s.size
  · rw [if_pos same]
    exact new
  · rw [if_neg same]
    rw [Array.size_push] at bound
    exact (Stays.ofGrown grown).symbol (sound.symbols id (by omega))

end Sound

/-- The names of an environment stand for symbols of these names, and its types are those that values
have, or the one that still lacks its argument. -/
structure Fits (s : Symbols) (env : Env) : Prop where
  names : ∀ layer ∈ env.layers, ∀ entry ∈ layer.names,
    entry.2 < s.size ∧ (s.get entry.2).name = entry.1
  types : ∀ layer ∈ env.layers, ∀ entry ∈ layer.types, entry.2 = .seq ∨ entry.2.OfValues s.get
  owner : ∀ function, env.owner = some function → (s.get function).kind.role = "function"

namespace Fits

variable {s s' : Symbols} {env env' : Env}

theorem stays (fits : Fits s env) (stays : Stays s s') : Fits s' env := by
  refine ⟨fun layer member entry listed => ?_, fun layer member entry listed => ?_, ?_⟩
  · obtain ⟨bound, named⟩ := fits.names layer member entry listed
    exact ⟨Nat.lt_of_lt_of_le bound stays.more, by rw [stays.name _ bound, named]⟩
  · exact (fits.types layer member entry listed).imp_right stays.ofValues
  · intro function inside
    exact (stays.keeps (fits.owner function inside) (by decide)).2.1

theorem symbol? (fits : Fits s env) {name : String} {id : SymbolId}
    (found : env.symbol? name = some id) : id < s.size ∧ (s.get id).name = name := by
  obtain ⟨layer, member, found⟩ := List.exists_of_findSome?_eq_some found
  exact fits.names layer member _ (mem_of_lookup found)

theorem type? (fits : Fits s env) {name : String} {ty : Ty} (found : env.type? name = some ty) :
    ty = .seq ∨ ty.OfValues s.get := by
  obtain ⟨layer, member, found⟩ := List.exists_of_findSome?_eq_some found
  exact fits.types layer member _ (mem_of_lookup found)

theorem inner (fits : Fits s env) : Fits s env.inner := by
  refine ⟨fun layer member entry listed => ?_, fun layer member entry listed => ?_, fits.owner⟩
  · rcases List.mem_cons.mp member with rfl | outer
    · cases listed
    · exact fits.names layer outer entry listed
  · rcases List.mem_cons.mp member with rfl | outer
    · cases listed
    · exact fits.types layer outer entry listed

theorem declare (fits : Fits s env) {ident : Ident} {id : SymbolId}
    (declared : env.declare ident id = .ok env') (bound : id < s.size)
    (named : (s.get id).name = ident.text) : Fits s env' := by
  unfold Env.declare at declared
  split at declared
  · cases declared
  · cases declared
    refine ⟨fun layer member entry listed => ?_, fun layer member entry listed => ?_, fits.owner⟩
    · rcases List.mem_cons.mp member with rfl | outer
      · rcases List.mem_append.mp listed with older | new
        · exact fits.names _ List.mem_cons_self entry older
        · obtain rfl := List.mem_singleton.mp new
          exact ⟨bound, named⟩
      · exact fits.names layer (List.mem_cons_of_mem _ outer) entry listed
    · rcases List.mem_cons.mp member with rfl | outer
      · exact fits.types _ List.mem_cons_self entry listed
      · exact fits.types layer (List.mem_cons_of_mem _ outer) entry listed

theorem builtin (names : NameTable) : Fits #[] (Env.builtin names) := by
  refine ⟨?_, ?_, nofun⟩
  · intro layer member entry listed
    obtain rfl := List.mem_singleton.mp member
    cases listed
  · intro layer member entry listed
    obtain rfl := List.mem_singleton.mp member
    obtain ⟨⟨name?, ty⟩, builtin, found⟩ := List.mem_filterMap.mp listed
    obtain ⟨name, -, rfl⟩ := Option.map_eq_some_iff.mp found
    simp only [List.mem_cons, Prod.mk.injEq, List.not_mem_nil, or_false] at builtin
    rcases builtin with ⟨-, rfl⟩ | ⟨-, rfl⟩ | ⟨-, rfl⟩ | ⟨-, rfl⟩
    · exact Or.inr .number
    · exact Or.inr .string
    · exact Or.inr .boolean
    · exact Or.inl rfl

end Fits

mutual

theorem typeOf_ofValues {s : Symbols} {env : Env} (fits : Fits s env) :
    ∀ {ref : TypeRef} {ty : Ty}, typeOf env ref = .ok ty → ty.OfValues s.get
  | ⟨name, args, span⟩, ty, ran => by
    rw [typeOf] at ran
    cases found : env.type? name.text with
    | none =>
      rw [found] at ran
      cases ran
    | some general =>
      rw [found] at ran
      dsimp only at ran
      split at ran
      · cases ran
      · rename_i arity
        have known := fits.type? found
        cases general with
        | seq =>
          cases ranArgs : typesOf env args with
          | error error =>
            rw [ranArgs] at ran
            cases ran
          | ok types =>
            rw [ranArgs] at ran
            cases ran
            have all := typesOf_ofValues fits ranArgs
            have length := typesOf_length ranArgs
            match types with
            | [] => simp_all [Resolve.typeArity]
            | [element] => exact .seqOf (all element List.mem_cons_self)
            | _ :: _ :: _ => simp_all [Resolve.typeArity]
        | _ =>
          cases ran
          exact known.resolve_left nofun

theorem typesOf_ofValues {s : Symbols} {env : Env} (fits : Fits s env) :
    ∀ {refs : List TypeRef} {types : List Ty}, typesOf env refs = .ok types →
      ∀ ty ∈ types, ty.OfValues s.get
  | [], types, ran => by
    cases ran
    nofun
  | first :: rest, types, ran => by
    obtain ⟨ty, ranFirst, ran⟩ := Stateful.except_bind_eq_ok.mp ran
    obtain ⟨others, ranRest, ran⟩ := Stateful.except_bind_eq_ok.mp ran
    cases ran
    intro other member
    rcases List.mem_cons.mp member with rfl | later
    · exact typeOf_ofValues fits ranFirst
    · exact typesOf_ofValues fits ranRest other later

end

namespace Fitting

variable {start : Nat} {seen : List String} {declared : List (Binding .parsed)}

theorem names (fitting : Fitting start seen declared) :
    (∀ member ∈ declared, member.name.text ∉ seen) ∧ (declared.map (·.name.text)).Nodup := by
  induction declared generalizing start seen with
  | nil => simp
  | cons member rest ih =>
    obtain ⟨unseen, -, fitting⟩ := fitting
    obtain ⟨others, distinct⟩ := ih fitting
    simp only [List.mem_cons, not_or] at others
    refine ⟨List.forall_mem_cons.mpr ⟨unseen, fun other listed => (others other listed).2⟩, ?_⟩
    simp only [List.map_cons, List.nodup_cons, List.mem_map, not_exists, not_and]
    exact ⟨fun other listed => (others other listed).1, distinct⟩

theorem small (fitting : Fitting start seen declared) {index : Nat} (bound : index < declared.length) :
    start + index ≤ Resolve.maxIndex := by
  induction declared generalizing start seen index with
  | nil => simp at bound
  | cons member rest ih =>
    cases index with
    | zero => exact fitting.2.1
    | succ index =>
      have later := ih fitting.2.2 (by simpa using bound)
      omega

end Fitting

theorem Entered.sound {env : Env} {s : Symbols} {stmt : PStmt} {own id : SymbolId}
    (entered : Entered env s stmt own) (fits : Fits s env) (listed : id ∈ own :: s.members own) :
    (s.get id).Sound s := by
  obtain @⟨members, declared, types, symbol, kind, owner, heading, typed, fitting, found, known⟩ := entered
  obtain ⟨-, get⟩ := Symbols.get_of_getElem? found
  have sameLength : types.length = declared.length := by simpa using typesOf_length typed
  have length : members.length = declared.length := by
    simpa [memberSymbols_length _ _ _ sameLength] using congrArg List.length known
  have ofValues := typesOf_ofValues fits typed
  unfold Symbol.Sound
  cases heading with
  | record name declared span sym =>
    rcases List.mem_cons.mp listed with rfl | isField
    · rw [get]
      refine ⟨rfl, fun field isField => ?_, by rw [member_names known sameLength]; exact fitting.names.2⟩
      obtain ⟨index, place⟩ := List.getElem?_of_mem isField
      exact (member_known known place).1
    · rw [Symbols.members, get] at isField
      obtain ⟨index, place⟩ := List.getElem?_of_mem isField
      obtain ⟨-, _, -, ty, isTy, isField⟩ := member_known known place
      have small := fitting.small (length ▸ (List.getElem?_eq_some_iff.mp place).1)
      rw [isField]
      exact ⟨rfl, by rw [get]; rfl, by omega, ofValues ty isTy⟩
  | func name declared body span sym returning =>
    rcases List.mem_cons.mp listed with rfl | isParam
    · rw [get]
      exact ⟨rfl, rfl, typeOf_ofValues fits returning⟩
    · rw [Symbols.members, get] at isParam
      obtain ⟨index, place⟩ := List.getElem?_of_mem isParam
      obtain ⟨-, _, -, ty, isTy, isParam⟩ := member_known known place
      rw [isParam]
      exact ⟨⟨own, rfl, by rw [get]; rfl⟩, ofValues ty isTy⟩

theorem hoist_sound {env env' : Env} {stmts : List PStmt} {s s' : Symbols}
    {ids : List (Option SymbolId)} (ran : hoist env stmts s = .ok ((env', ids), s'))
    (sound : Sound s) (fits : Fits s env) : Sound s' ∧ Fits s' env' := by
  have hoisted := hoist_spec ran
  have grown := Grows.hoist _ _ _ _ _ ran
  have stays := Stays.ofGrown grown
  obtain ⟨names, types, owner⟩ := fits.stays stays
  have fits' : Fits s' env' := by
    refine ⟨fun layer member entry listed => ?_, fun layer member entry listed => ?_, ?_⟩
    · rcases List.mem_cons.mp member with rfl | outer
      · rw [hoisted.named.names, List.mem_append, List.mem_append] at listed
        rcases listed with older | isRecord | isFunction
        · exact names _ List.mem_cons_self entry older
        · obtain ⟨_, _, _, _, paired, isName⟩ := mem_recordEntries isRecord
          obtain ⟨bound, fields, found, -⟩ := (hoisted.has paired).record
          exact ⟨bound, by rw [found, isName]⟩
        · obtain ⟨_, _, _, _, _, _, paired, isName⟩ := mem_functionEntries isFunction
          obtain ⟨bound, params, ty, found, -⟩ := (hoisted.has paired).func
          exact ⟨bound, by rw [found, isName]⟩
      · rw [hoisted.named.outer] at outer
        exact names layer (List.mem_cons_of_mem _ outer) entry listed
    · rcases List.mem_cons.mp member with rfl | outer
      · rw [hoisted.types, List.mem_append] at listed
        rcases listed with older | new
        · exact types _ List.mem_cons_self entry older
        · obtain ⟨record, isRecord, rfl⟩ := List.mem_map.mp new
          obtain ⟨_, _, _, _, paired, isName⟩ := mem_recordEntries isRecord
          obtain ⟨bound, fields, found, -⟩ := (hoisted.has paired).record
          have kind : (s'.get record.2).kind = .record fields := by rw [found]
          exact Or.inr (.record kind (by rw [found, isName]))
      · rw [hoisted.named.outer] at outer
        exact types layer (List.mem_cons_of_mem _ outer) entry listed
    · rw [hoisted.named.owner]
      exact owner
  refine ⟨⟨grown.kinds sound.kinds, fun id bound => ?_⟩, fits'⟩
  by_cases old : id < s.size
  · rw [hoisted.ext.same id old]
    exact stays.symbol (sound.symbols id old)
  · obtain ⟨stmt, own, entered, listed⟩ := hoisted.entered (Nat.le_of_not_lt old) bound
    exact entered.sound fits' listed

end Lexical

end LetChain
