import LetChain.Proofs.Stateful
import LetChain.Proofs.Scoping.Lexical

/-! Checking adds symbols and leaves those that it finds. What a symbol's kind says of other symbols
holds of them. -/

namespace LetChain

open Stateful (bind_eq_ok lift_eq_ok)

namespace Symbols

theorem get_push (symbols : Symbols) (symbol : Symbol) (id : SymbolId) :
    get (symbols.push symbol) id = if id = symbols.size then symbol else symbols.get id := by
  simp only [get, Array.getD_eq_getD_getElem?, Array.getElem?_push]
  split <;> rfl

theorem bound_of_kind {symbols : Symbols} {id : SymbolId}
    (kind : (symbols.get id).kind ≠ .localVar) : id < symbols.size := by
  apply Decidable.byContradiction
  intro beyond
  apply kind
  simp [get, Array.getD_eq_getD_getElem?, Array.getElem?_eq_none (Nat.le_of_not_lt beyond), default]

@[simp] theorem size_setKind (symbols : Symbols) (target : SymbolId) (kind : SymbolKind) :
    (symbols.setKind target kind).size = symbols.size := by
  simp [setKind]

end Symbols

theorem SymbolKind.role_eq_type {kind : SymbolKind} :
    kind.role = "type" ↔ ∃ fields, kind = .record fields := by
  cases kind <;> simp [role]

theorem SymbolKind.role_eq_function {kind : SymbolKind} :
    kind.role = "function" ↔ ∃ params returns scope, kind = .function params returns scope := by
  cases kind <;> simp [role]

namespace Lexical

open Resolve (PExpr PStmt TExpr TStmt Expected)

/-! ### What checking leaves of a table -/

/-- Symbols are added, and the first `floor` of them stay as they are. -/
structure Extends (floor : Nat) (before after : Symbols) : Prop where
  more : before.size ≤ after.size
  same : ∀ id, id < floor → after.get id = before.get id

structure Kinded (symbols : Symbols) (id : SymbolId) : Prop where
  param : ∀ params returns scope, (symbols.get id).kind = .function params returns scope →
    ∀ index param, params[index]? = some param →
      param < symbols.size ∧ (symbols.get param).kind = .param index ∧
        (symbols.get param).owner = some id
  record : ∀ fields, (symbols.get id).kind = .record fields →
    (symbols.get id).ty = .record id (symbols.get id).name
  field : ∀ fields, (symbols.get id).kind = .record fields →
    ∀ index field, fields[index]? = some field →
      field < symbols.size ∧ (symbols.get field).kind = .field id index

def WellKinded (symbols : Symbols) : Prop := ∀ id, Kinded symbols id

theorem Kinded.of_variable {symbols : Symbols} {id : SymbolId}
    (kind : (symbols.get id).kind.role ≠ "function" ∧ (symbols.get id).kind.role ≠ "type") :
    Kinded symbols id := by
  constructor
  all_goals
    intros
    simp_all [SymbolKind.role]

namespace WellKinded

variable {symbols : Symbols}

theorem param_bound (kinds : WellKinded symbols) {id : SymbolId} {params : List SymbolId} {returns : Ty}
    {scope : Nat} (kind : (symbols.get id).kind = .function params returns scope) :
    ∀ param ∈ params, param < symbols.size := by
  intro param member
  obtain ⟨index, place⟩ := List.getElem?_of_mem member
  exact ((kinds id).param params returns scope kind index param place).1

theorem field_bound (kinds : WellKinded symbols) {id : SymbolId} {fields : List SymbolId}
    (kind : (symbols.get id).kind = .record fields) : ∀ field ∈ fields, field < symbols.size := by
  intro field member
  obtain ⟨index, place⟩ := List.getElem?_of_mem member
  exact ((kinds id).field fields kind index field place).1

theorem empty : WellKinded #[] := fun id => .of_variable (by simp [Symbols.get, default, SymbolKind.role])

theorem extend {symbols' : Symbols} (kinds : WellKinded symbols)
    (extended : Extends symbols.size symbols symbols')
    (new : ∀ id, symbols.size ≤ id → Kinded symbols' id) : WellKinded symbols' := by
  intro id
  by_cases old : id < symbols.size
  · obtain ⟨param, record, field⟩ := kinds id
    rw [← extended.same id old] at param record field
    refine ⟨?_, record, ?_⟩
    · intro params returns scope kind index own found
      obtain ⟨bound, facts⟩ := param params returns scope kind index own found
      rw [extended.same own bound]
      exact ⟨Nat.lt_of_lt_of_le bound extended.more, facts⟩
    · intro fields kind index own found
      obtain ⟨bound, facts⟩ := field fields kind index own found
      rw [extended.same own bound]
      exact ⟨Nat.lt_of_lt_of_le bound extended.more, facts⟩
  · exact new id (Nat.le_of_not_lt old)

end WellKinded

namespace Extends

variable {floor floor' : Nat} {first second third : Symbols}

theorem refl (floor : Nat) (symbols : Symbols) : Extends floor symbols symbols :=
  ⟨Nat.le_refl _, fun _ _ => rfl⟩

theorem trans (left : Extends floor first second) (right : Extends floor second third) :
    Extends floor first third :=
  ⟨Nat.le_trans left.more right.more,
    fun id bound => (right.same id bound).trans (left.same id bound)⟩

theorem lower (extended : Extends floor first second) (below : floor' ≤ floor) :
    Extends floor' first second :=
  ⟨extended.more, fun id bound => extended.same id (Nat.lt_of_lt_of_le bound below)⟩

theorem push (symbols : Symbols) (symbol : Symbol) :
    Extends symbols.size symbols (symbols.push symbol) := by
  refine ⟨by simp, fun id bound => ?_⟩
  rw [Symbols.get_push, if_neg (Nat.ne_of_lt bound)]

theorem append (symbols new : Symbols) : Extends symbols.size symbols (symbols ++ new) := by
  refine ⟨by simp, fun id bound => ?_⟩
  simp [Symbols.get, Array.getElem?_append_left bound]

end Extends

structure Grown (before after : Symbols) : Prop where
  ext : Extends before.size before after
  kinds : WellKinded before → WellKinded after

namespace Grown

variable {first second third : Symbols}

theorem refl (symbols : Symbols) : Grown symbols symbols := ⟨Extends.refl _ _, id⟩

theorem trans (left : Grown first second) (right : Grown second third) : Grown first third :=
  ⟨left.ext.trans (right.ext.lower left.ext.more), fun sound => right.kinds (left.kinds sound)⟩

end Grown

def Grows {α : Type} (m : Check α) : Prop :=
  ∀ s a s', m s = .ok (a, s') → Grown s s'

namespace Grows

variable {α β : Type}

theorem pure (a : α) : Grows (pure a : Check α) := by
  intro s a' s' ran
  cases ran
  exact Grown.refl _

theorem bind {m : Check α} {f : α → Check β} (first : Grows m) (next : ∀ a, Grows (f a)) :
    Grows (m >>= f) := by
  intro s c s'' ran
  obtain ⟨a, s', ranFirst, ranNext⟩ := bind_eq_ok.mp ran
  exact (first s a s' ranFirst).trans (next a s' c s'' ranNext)

theorem get : Grows (get : Check Symbols) := by
  intro s a s' ran
  cases ran
  exact Grown.refl _

theorem fail (error : CompileError) : Grows (throw error : Check α) := by
  intro s a s' ran
  cases ran

theorem lift (result : Except CompileError α) : Grows (liftM result : Check α) := by
  intro s a s' ran
  obtain ⟨-, rfl⟩ := lift_eq_ok.mp ran
  exact Grown.refl _

theorem require (condition : Prop) [Decidable condition] (error : CompileError) :
    Grows (require condition error) := by
  unfold Lexical.require
  split
  · exact Grows.pure _
  · exact fail _

theorem addLocal (env : Env) (ident : Ident) (ty : Ty) : Grows (addLocal env ident ty) := by
  refine bind (fun s id s' ran => ?_) fun id => (lift _).bind fun env => Grows.pure _
  cases ran
  refine ⟨Extends.push _ _, fun kinds => kinds.extend (Extends.push _ _) fun id above => ?_⟩
  refine .of_variable ?_
  rw [Symbols.get_push]
  split
  · simp [SymbolKind.role]
  · simp [Symbols.get, Array.getElem?_eq_none above, default, SymbolKind.role]

theorem value (env : Env) (ident : Ident) : Grows (value env ident) := by
  unfold Lexical.value
  split
  · exact fail _
  · refine get.bind fun symbols => ?_
    dsimp only
    split
    · split
      · exact fail _
      · exact Grows.pure _
    · split
      · exact fail _
      · exact Grows.pure _
    · exact fail _

theorem role (env : Env) (ident : Ident) (expected : String) :
    Grows (role env ident expected) := by
  unfold Lexical.role
  split
  · exact fail _
  · refine get.bind fun symbols => ?_
    dsimp only
    split
    · exact Grows.pure _
    · exact fail _

theorem blockValue (body : Block .typed) : Grows (blockValue body) := by
  unfold Lexical.blockValue
  split
  · exact Grows.pure _
  · exact fail _

theorem isSource (source : TExpr) (elementType : TypeRef) (declared : Ty) :
    Grows (isSource source elementType declared) := by
  unfold Lexical.isSource
  split
  · exact fail _
  · exact require _ _

end Grows

end Lexical

end LetChain
