import LetChain.Proofs.Stateful
import LetChain.Typing.Resolve

/-! What resolving leaves of the scope arena. A resolver that succeeds is back in the scope and the
function in which it began. It adds scopes and symbols, and of those that were there before it
changes at most the names of the current scope. -/

namespace LetChain

open Stateful (bind_eq_ok)

/-- The first `symbols` symbols and `scopes` scopes of `before` are still there `after`. If
`declares`, names may have been added to the current scope. -/
structure Keeps (symbols scopes : Nat) (declares : Bool) (before after : Bindings) : Prop where
  current : after.scopes.current = before.scopes.current
  owner : after.owner = before.owner
  moreSymbols : before.symbols.size ≤ after.symbols.size
  moreScopes : before.scopes.scopes.size ≤ after.scopes.scopes.size
  symbol : ∀ id, id < symbols → after.symbols[id]? = before.symbols[id]?
  parent : ∀ id, id < scopes →
    (after.scopes.scopes[id]?).map Scope.parent = (before.scopes.scopes[id]?).map Scope.parent
  scope : ∀ id, id < scopes → (declares = true → id ≠ before.scopes.current) →
    after.scopes.scopes[id]? = before.scopes.scopes[id]?

namespace Keeps

variable {n n' k k' : Nat} {declares : Bool} {b b' b'' : Bindings}

theorem refl (n k : Nat) (declares : Bool) (b : Bindings) : Keeps n k declares b b :=
  ⟨rfl, rfl, Nat.le_refl _, Nat.le_refl _, fun _ _ => rfl, fun _ _ => rfl, fun _ _ _ => rfl⟩

theorem trans (first : Keeps n k declares b b') (second : Keeps n k declares b' b'') :
    Keeps n k declares b b'' := by
  refine ⟨second.current.trans first.current, second.owner.trans first.owner,
    Nat.le_trans first.moreSymbols second.moreSymbols,
    Nat.le_trans first.moreScopes second.moreScopes, ?_, ?_, ?_⟩
  · intro id bound
    rw [second.symbol id bound, first.symbol id bound]
  · intro id bound
    rw [second.parent id bound, first.parent id bound]
  · intro id bound other
    have stillOther : declares = true → id ≠ b'.scopes.current := by
      rw [first.current]
      exact other
    rw [second.scope id bound stillOther, first.scope id bound other]

theorem lower (kept : Keeps n k declares b b') (fewer : n' ≤ n) (fewerScopes : k' ≤ k) :
    Keeps n' k' declares b b' :=
  ⟨kept.current, kept.owner, kept.moreSymbols, kept.moreScopes,
    fun id bound => kept.symbol id (by omega), fun id bound => kept.parent id (by omega),
    fun id bound => kept.scope id (by omega)⟩

theorem weaken (kept : Keeps n k false b b') : Keeps n k declares b b' :=
  ⟨kept.current, kept.owner, kept.moreSymbols, kept.moreScopes, kept.symbol, kept.parent,
    fun id bound _ => kept.scope id bound (by simp)⟩

theorem setKind (id : SymbolId) (kind : SymbolKind) (b : Bindings) (above : n ≤ id) :
    Keeps n k declares b { b with symbols := b.symbols.setKind id kind } := by
  refine ⟨rfl, rfl, by simp [Symbols.setKind], Nat.le_refl _, ?_, fun _ _ => rfl, fun _ _ _ => rfl⟩
  intro other bound
  simp only [Symbols.setKind, Array.getElem?_modify]
  rw [if_neg (by omega)]

theorem leave (kept : Keeps b.symbols.size b.scopes.push.scopes.size true
      { b with scopes := b.scopes.push } b') :
    Keeps b.symbols.size b.scopes.scopes.size declares b
      { b' with scopes := b'.scopes.pop } := by
  obtain ⟨symbols, ⟨scopes, current⟩, owner⟩ := b
  simp only [Scopes.push] at kept
  have parent := kept.parent scopes.size (by simp)
  simp only [Array.getElem?_push_size, Option.map_some] at parent
  have current' : b'.scopes.current = scopes.size := kept.current
  have popped : b'.scopes.pop = { b'.scopes with current := current } := by
    unfold Scopes.pop
    rw [current']
    obtain ⟨scope, found, same⟩ := Option.map_eq_some_iff.mp parent
    rw [found, Option.bind_some, same]
  rw [popped]
  have wider := kept.moreScopes
  simp only [Array.size_push] at wider
  refine ⟨rfl, kept.owner, kept.moreSymbols, by simp only; omega, kept.symbol, ?_, ?_⟩
  · intro id (bound : id < scopes.size)
    have same := kept.parent id (by simp; omega)
    simpa [Array.getElem?_push, Nat.ne_of_lt bound] using same
  · intro id (bound : id < scopes.size) _
    have same := kept.scope id (by simp; omega) (fun _ => by simp only; omega)
    simpa [Array.getElem?_push, Nat.ne_of_lt bound] using same

end Keeps

def Restores {α : Type} (declares : Bool) (m : Resolve α) : Prop :=
  ∀ b a b', m b = .ok (a, b') → Keeps b.symbols.size b.scopes.scopes.size declares b b'

namespace Restores

variable {α β : Type} {declares : Bool}

theorem pure (a : α) : Restores declares (pure a : Resolve α) := by
  intro b a' b' ran
  cases ran
  exact Keeps.refl _ _ _ _

theorem weaken {m : Resolve α} (restored : Restores false m) : Restores declares m :=
  fun b a b' ran => (restored b a b' ran).weaken

theorem bind {m : Resolve α} {f : α → Resolve β} (first : Restores declares m)
    (next : ∀ a, Restores declares (f a)) : Restores declares (m >>= f) := by
  intro b c b'' ran
  obtain ⟨a, b', ranFirst, ranNext⟩ := bind_eq_ok.mp ran
  have kept := first b a b' ranFirst
  exact kept.trans ((next a b' c b'' ranNext).lower kept.moreSymbols kept.moreScopes)

theorem get : Restores declares (get : Resolve Bindings) := by
  intro b a b' ran
  cases ran
  exact Keeps.refl _ _ _ _

theorem fail (error : CompileError) : Restores declares (throw error : Resolve α) := by
  intro b a b' ran
  cases ran

theorem failBind (span : Span) (error : BindError) :
    Restores declares (Resolve.failBind span error : Resolve α) := fail _

theorem failType (span : Span) (error : TypeError) :
    Restores declares (Resolve.failType span error : Resolve α) := fail _

theorem ite {p : Prop} [Decidable p] {m m' : Resolve α} (yes : Restores declares m)
    (no : Restores declares m') : Restores declares (if p then m else m') := by
  split
  · exact yes
  · exact no

theorem lift (result : Except CompileError α) :
    Restores declares (liftM result : Resolve α) := by
  intro b a b' ran
  cases result with
  | error error => cases ran
  | ok value =>
    cases ran
    exact Keeps.refl _ _ _ _

theorem symbol (id : SymbolId) : Restores declares (Resolve.symbol id) :=
  get.bind fun _ => Restores.pure _

theorem resolveType (type : TypeRef) : Restores declares (Resolve.resolveType type) :=
  get.bind fun _ => lift _

theorem addSymbol (symbol : Symbol) : Restores declares (Resolve.addSymbol symbol) := by
  intro b id b' ran
  cases ran
  refine ⟨rfl, rfl, by simp, Nat.le_refl _, ?_, fun _ _ => rfl, fun _ _ _ => rfl⟩
  intro id bound
  simp only [Array.getElem?_push]
  rw [if_neg (by omega)]

theorem declare (ident : Ident) (id : SymbolId) : Restores true (Resolve.declare ident id) := by
  intro b done b' ran
  obtain ⟨symbols, ⟨scopes, current⟩, owner⟩ := b
  simp only [Resolve.declare, Scopes.declare] at ran
  split at ran
  · rename_i declared
    split at declared
    · cases declared
    · cases declared
      cases ran
      refine ⟨rfl, rfl, Nat.le_refl _, by simp, fun _ _ => rfl, ?_, ?_⟩
      · intro id bound
        simp only [Array.getElem?_modify]
        split <;> cases scopes[id]? <;> rfl
      · intro id bound other
        simp only [Array.getElem?_modify]
        rw [if_neg (Ne.symm (other rfl))]
  · cases ran

theorem declareType (ident : Ident) (ty : Ty) :
    Restores true (Resolve.declareType ident ty) := by
  intro b done b' ran
  obtain ⟨symbols, ⟨scopes, current⟩, owner⟩ := b
  simp only [Resolve.declareType, Scopes.declareType?] at ran
  split at ran
  · rename_i declared
    split at declared
    · cases declared
    · cases declared
      cases ran
      refine ⟨rfl, rfl, Nat.le_refl _, by simp, fun _ _ => rfl, ?_, ?_⟩
      · intro id bound
        simp only [Array.getElem?_modify]
        split <;> cases scopes[id]? <;> rfl
      · intro id bound other
        simp only [Array.getElem?_modify]
        rw [if_neg (Ne.symm (other rfl))]
  · cases ran

theorem declareLocal (ident : Ident) (ty : Ty) :
    Restores true (Resolve.declareLocal ident ty) :=
  get.bind fun _ => (addSymbol _).bind fun _ => (declare _ _).bind fun _ => Restores.pure _

theorem checkIndex (index : Nat) (ident : Ident) (what : String) :
    Restores declares (Resolve.checkIndex index ident what) :=
  ite (Restores.pure _) (failBind _ _)

theorem within {m : Resolve α} {f : α → Resolve β} (inside : Restores true m)
    (next : ∀ a, Restores declares (f a)) :
    Restores declares (Resolve.modifyScopes Scopes.push >>= fun _ => m >>= fun a =>
      Resolve.modifyScopes Scopes.pop >>= fun _ => f a) := by
  intro b c b'' ran
  obtain ⟨_, pushed, push, ran⟩ := bind_eq_ok.mp ran
  obtain ⟨a, b', ranInside, ran⟩ := bind_eq_ok.mp ran
  obtain ⟨_, popped, pop, ranNext⟩ := bind_eq_ok.mp ran
  cases push
  cases pop
  have restored : Keeps b.symbols.size b.scopes.scopes.size declares b _ :=
    (inside _ a b' ranInside).leave
  exact restored.trans ((next a _ c b'' ranNext).lower restored.moreSymbols restored.moreScopes)

theorem within_two {γ : Type} {m : Resolve α} {m' : α → Resolve β} {f : α → β → Resolve γ}
    (first : Restores true m) (second : ∀ a, Restores true (m' a))
    (next : ∀ a c, Restores declares (f a c)) :
    Restores declares (Resolve.modifyScopes Scopes.push >>= fun _ => m >>= fun a =>
      m' a >>= fun c => Resolve.modifyScopes Scopes.pop >>= fun _ => f a c) := by
  have both : Restores true (m >>= fun a => m' a >>= fun c => Pure.pure (a, c)) :=
    first.bind fun a => (second a).bind fun c => Restores.pure _
  have combined := within both (fun p => next p.1 p.2)
  simpa only [bind_assoc, pure_bind] using combined

/-! ### Hoisting -/

theorem declareFields (record index : Nat) (seen : Std.HashSet String) (ids : Array SymbolId)
    (fields : List (Binding .parsed)) :
    Restores declares (Resolve.declareFields record index seen ids fields) := by
  induction fields generalizing index seen ids with
  | nil => exact Restores.pure _
  | cons field rest ih =>
    refine ite (failBind _ _) ?_
    refine (resolveType _).bind fun ty => ?_
    refine (checkIndex _ _ _).bind fun _ => ?_
    exact (addSymbol _).bind fun id => ih _ _ _

theorem resolveTypes (types : Array Ty) (params : List (Binding .parsed)) :
    Restores declares (Resolve.resolveTypes types params) := by
  induction params generalizing types with
  | nil => exact Restores.pure _
  | cons param rest ih => exact (resolveType _).bind fun ty => ih _

theorem declareParams (owner index : Nat) (ids : Array SymbolId)
    (params : List (Binding .parsed × Ty)) :
    Restores true (Resolve.declareParams owner index ids params) := by
  induction params generalizing index ids with
  | nil => exact Restores.pure _
  | cons param rest ih =>
    refine (checkIndex _ _ _).bind fun _ => ?_
    refine (addSymbol _).bind fun id => ?_
    exact (declare _ _).bind fun _ => ih _ _

theorem declareRecordName (name : Ident) (span : Span) :
    Restores true (Resolve.declareRecordName name span) := by
  refine get.bind fun _ => ?_
  refine (addSymbol _).bind fun _ => ?_
  refine (declare _ _).bind fun _ => ?_
  exact (declareType _ _).bind fun _ => Restores.pure _

theorem declareRecordName_id (name : Ident) (span : Span) (b b' : Bindings) (id : SymbolId)
    (ran : Resolve.declareRecordName name span b = .ok (id, b')) : id = b.symbols.size := by
  obtain ⟨_, _, got, ran⟩ := bind_eq_ok.mp ran
  obtain ⟨_, _, _, ran⟩ := bind_eq_ok.mp ran
  obtain ⟨_, _, _, ran⟩ := bind_eq_ok.mp ran
  obtain ⟨_, _, _, returned⟩ := bind_eq_ok.mp ran
  cases got
  cases returned
  rfl

theorem declareRecordNames (ids : Array (Option SymbolId)) (stmts : List Resolve.PStmt) :
    Restores true (Resolve.declareRecordNames ids stmts) := by
  induction stmts generalizing ids with
  | nil => exact Restores.pure _
  | cons stmt rest ih =>
    cases stmt with
    | record name fields span sym => exact (declareRecordName _ _).bind fun id => ih _
    | _ => exact ih _

theorem recordNames_new (ids : Array (Option SymbolId)) (stmts : List Resolve.PStmt)
    (b b' : Bindings) (found : List (Option SymbolId))
    (ran : Resolve.declareRecordNames ids stmts b = .ok (found, b')) (id : SymbolId)
    (member : some id ∈ found) : some id ∈ ids.toList ∨ b.symbols.size ≤ id := by
  induction stmts generalizing ids b with
  | nil =>
    cases ran
    exact Or.inl member
  | cons stmt rest ih =>
    cases stmt with
    | record name fields span sym =>
      obtain ⟨newId, b₁, ranName, ranRest⟩ := bind_eq_ok.mp ran
      have kept := declareRecordName name span b newId b₁ ranName
      obtain rfl : newId = b.symbols.size := declareRecordName_id name span b b₁ newId ranName
      rcases ih _ _ ranRest with old | later
      · simp only [Array.toList_push, List.mem_append, List.mem_singleton,
          Option.some.injEq] at old
        rcases old with old | same
        · exact Or.inl old
        · exact Or.inr (Nat.le_of_eq same.symm)
      · have more := kept.moreSymbols
        exact Or.inr (by omega)
    | _ =>
      rcases ih _ _ ran with old | later
      · exact Or.inl (by simpa using old)
      · exact Or.inr later

theorem declareAllFields_keeps (floor : Nat) (pairs : List (Resolve.PStmt × Option SymbolId))
    (above : ∀ stmt id, (stmt, some id) ∈ pairs → floor ≤ id) (b b' : Bindings) (done : Unit)
    (bound : floor ≤ b.symbols.size)
    (ran : Resolve.declareAllFields pairs b = .ok (done, b')) :
    Keeps floor b.scopes.scopes.size declares b b' := by
  induction pairs generalizing b with
  | nil =>
    cases ran
    exact Keeps.refl _ _ _ _
  | cons pair rest ih =>
    obtain ⟨stmt, id?⟩ := pair
    have aboveRest : ∀ stmt id, (stmt, some id) ∈ rest → floor ≤ id :=
      fun stmt id member => above stmt id (List.mem_cons_of_mem _ member)
    cases stmt with
    | record name fields span sym =>
      cases id? with
      | none => exact ih aboveRest b bound ran
      | some id =>
        obtain ⟨ids, b₁, ranFields, ran⟩ := bind_eq_ok.mp ran
        obtain ⟨_, b₂, ranKind, ranRest⟩ := bind_eq_ok.mp ran
        cases ranKind
        have kept : Keeps floor b.scopes.scopes.size declares b b₁ :=
          (declareFields id 0 ∅ #[] fields b ids b₁ ranFields).lower bound (Nat.le_refl _)
        have patched : Keeps floor b.scopes.scopes.size declares b₁ _ :=
          Keeps.setKind id (.record ids) b₁ (above _ id List.mem_cons_self)
        have kept := kept.trans patched
        exact kept.trans ((ih aboveRest _ (Nat.le_trans bound kept.moreSymbols) ranRest).lower
          (Nat.le_refl _) kept.moreScopes)
    | _ => exact ih aboveRest b bound ran

theorem declareFunction (name : Ident) (params : List (Binding .parsed)) (returns : TypeRef)
    (span : Span) : Restores true (Resolve.declareFunction name params returns span) := by
  refine (resolveType _).bind fun returnType => ?_
  intro b id b' ran
  obtain ⟨scope, b₁, ranScope, ran⟩ := bind_eq_ok.mp ran
  obtain ⟨newId, b₂, ranSymbol, ran⟩ := bind_eq_ok.mp ran
  obtain ⟨_, b₃, ranName, ran⟩ := bind_eq_ok.mp ran
  obtain ⟨types, b₄, ranTypes, ran⟩ := bind_eq_ok.mp ran
  obtain ⟨previous, b₅, enter, ran⟩ := bind_eq_ok.mp ran
  obtain ⟨ids, b₆, ranParams, ran⟩ := bind_eq_ok.mp ran
  obtain ⟨_, b₇, leave, ran⟩ := bind_eq_ok.mp ran
  obtain ⟨_, b₈, ranKind, ran⟩ := bind_eq_ok.mp ran
  cases ran
  cases ranKind
  have added : Keeps b.symbols.size b.scopes.scopes.size true b b₁ := by
    cases ranScope
    refine ⟨rfl, rfl, Nat.le_refl _, by simp [Scopes.addChild], fun _ _ => rfl, ?_, ?_⟩
    · intro id bound
      simp [Scopes.addChild, Array.getElem?_push, Nat.ne_of_lt bound]
    · intro id bound _
      simp [Scopes.addChild, Array.getElem?_push, Nat.ne_of_lt bound]
  obtain rfl : scope = b.scopes.scopes.size := by cases ranScope; rfl
  have new : b₁.symbols.size ≤ id := by cases ranSymbol; exact Nat.le_refl _
  have more := added.moreSymbols
  have begun := added.trans ((addSymbol _ b₁ id b₂ ranSymbol).lower more added.moreScopes)
  have begun := begun.trans
    ((declare name id b₂ _ b₃ ranName).lower begun.moreSymbols begun.moreScopes)
  have begun := begun.trans
    ((resolveTypes #[] params b₃ types b₄ ranTypes).lower begun.moreSymbols begun.moreScopes)
  cases enter
  cases leave
  have inside := (declareParams _ _ _ _ _ _ _ ranParams).lower begun.moreSymbols begun.moreScopes
  have outside : Keeps b.symbols.size b.scopes.scopes.size true b₄
      { b₆ with scopes := b₆.scopes.enter b₄.scopes.current } := by
    refine ⟨rfl, inside.owner, inside.moreSymbols, inside.moreScopes, inside.symbol, inside.parent, ?_⟩
    intro id bound _
    exact inside.scope id bound (fun _ => Nat.ne_of_lt bound)
  exact (begun.trans outside).trans (Keeps.setKind id _ _ (Nat.le_trans added.moreSymbols new))

theorem declareFunctions (ids : Array (Option SymbolId))
    (pairs : List (Resolve.PStmt × Option SymbolId)) :
    Restores true (Resolve.declareFunctions ids pairs) := by
  induction pairs generalizing ids with
  | nil => exact Restores.pure _
  | cons pair rest ih =>
    obtain ⟨stmt, id⟩ := pair
    cases stmt with
    | func name params returns body span sym =>
      exact (declareFunction _ _ _ _).bind fun id => ih _
    | _ => exact ih _

theorem hoist (stmts : List Resolve.PStmt) : Restores true (Resolve.hoist stmts) := by
  intro b ids b' ran
  obtain ⟨records, b₁, ranNames, ran⟩ := bind_eq_ok.mp ran
  obtain ⟨_, b₂, ranFields, ranFunctions⟩ := bind_eq_ok.mp ran
  have named := declareRecordNames #[] stmts b records b₁ ranNames
  have above : ∀ stmt id, (stmt, some id) ∈ stmts.zip records → b.symbols.size ≤ id := by
    intro stmt id member
    have found := recordNames_new #[] stmts b b₁ records ranNames id (List.of_mem_zip member).2
    simpa using found
  have filled : Keeps b.symbols.size b.scopes.scopes.size true b₁ b₂ :=
    (declareAllFields_keeps _ _ above b₁ b₂ _ named.moreSymbols ranFields).lower (Nat.le_refl _)
      named.moreScopes
  have begun := named.trans filled
  exact begun.trans ((declareFunctions _ _ b₂ ids b' ranFunctions).lower begun.moreSymbols
    begun.moreScopes)

/-! ### Checks and names in use -/

theorem resolveValue (ident : Ident) : Restores declares (Resolve.resolveValue ident) := by
  refine get.bind fun bindings => ?_
  split
  · exact failBind _ _
  · dsimp only
    split
    · exact ite (failBind _ _) (Restores.pure _)
    · exact ite (failBind _ _) (Restores.pure _)
    · exact failBind _ _

theorem resolveRole (ident : Ident) (role : String) :
    Restores declares (Resolve.resolveRole ident role) := by
  refine get.bind fun bindings => ?_
  split
  · exact failBind _ _
  · exact ite (Restores.pure _) (failBind _ _)

theorem blockValue (body : Block .typed) : Restores declares (Resolve.blockValue body) := by
  unfold Resolve.blockValue
  split
  · exact Restores.pure _
  · exact failType _ _

theorem checkArity (span : Span) (name : Ident) (expected actual : Nat) :
    Restores declares (Resolve.checkArity span name expected actual) :=
  ite (Restores.pure _) (failBind _ _)

theorem checkLetBody (name : Ident) (declared : Ty) (body : Resolve.TExpr) :
    Restores declares (Resolve.checkLetBody name declared body) :=
  ite (Restores.pure _) (failType _ _)

theorem checkCondition (cond : Resolve.TExpr) :
    Restores declares (Resolve.checkCondition cond) :=
  ite (Restores.pure _) (failType _ _)

theorem checkBound (bound : Resolve.TExpr) : Restores declares (Resolve.checkBound bound) :=
  ite (Restores.pure _) (failType _ _)

theorem checkElement (source : Resolve.TExpr) (elementType : TypeRef) (declared : Ty) :
    Restores declares (Resolve.checkElement source elementType declared) := by
  unfold Resolve.checkElement
  split
  · exact failType _ _
  · exact ite (Restores.pure _) (failType _ _)

/-! ### Trees -/

theorem inFunction {m : Resolve α} {f : α → Resolve β} (scope : ScopeId) (owner : SymbolId)
    (inside : Restores false m) (next : ∀ a, Restores declares (f a)) :
    Restores declares (do
      let previousScope ← Resolve.enterScope scope
      let previousOwner := (← MonadState.get).owner
      Resolve.setOwner (some owner)
      let a ← m
      Resolve.setOwner previousOwner
      let _ ← Resolve.enterScope previousScope
      f a) := by
  intro b c b' ran
  obtain ⟨_, _, enter, ran⟩ := bind_eq_ok.mp ran
  obtain ⟨_, _, got, ran⟩ := bind_eq_ok.mp ran
  obtain ⟨_, _, own, ran⟩ := bind_eq_ok.mp ran
  cases enter
  cases got
  cases own
  obtain ⟨a, b₁, ranInside, ran⟩ := bind_eq_ok.mp ran
  obtain ⟨_, _, disown, ran⟩ := bind_eq_ok.mp ran
  obtain ⟨_, _, leave, ranNext⟩ := bind_eq_ok.mp ran
  cases disown
  cases leave
  have kept := inside _ a b₁ ranInside
  have restored : Keeps b.symbols.size b.scopes.scopes.size declares b
      ⟨b₁.symbols, b₁.scopes.enter b.scopes.current, b.owner⟩ :=
    ⟨rfl, rfl, kept.moreSymbols, kept.moreScopes, kept.symbol, kept.parent,
      fun id bound _ => kept.scope id bound (by simp)⟩
  exact restored.trans ((next a _ c b' ranNext).lower restored.moreSymbols restored.moreScopes)

mutual

theorem resolveExpr : ∀ e : Resolve.PExpr, Restores false (Resolve.resolveExpr e)
  | .number .. => Restores.pure _
  | .string .. => Restores.pure _
  | .bool .. => Restores.pure _
  | .named .. => (resolveValue _).bind fun _ => (symbol _).bind fun _ => Restores.pure _
  | .binary op lhs rhs span _ => by
    rw [Resolve.resolveExpr]
    refine (resolveExpr lhs).bind fun lhs => (resolveExpr rhs).bind fun rhs => ?_
    split
    · exact Restores.pure _
    · exact failType _ _
  | .range first limit step span _ => by
    rw [Resolve.resolveExpr]
    refine (resolveExpr first).bind fun first => (checkBound _).bind fun _ => ?_
    refine (resolveExpr limit).bind fun limit => (checkBound _).bind fun _ => ?_
    cases step with
    | none => exact Restores.pure _
    | some step =>
      exact (resolveExpr step).bind fun step => (checkBound _).bind fun _ => Restores.pure _
  | .call name args _ span _ => by
    rw [Resolve.resolveExpr]
    refine (resolveRole _ _).bind fun id => get.bind fun bindings => ?_
    split
    · refine (checkArity _ _ _ _).bind fun _ => ?_
      exact (resolveArgs args _ _).bind fun args => Restores.pure _
    · exact failBind _ _
  | .construct name args _ span _ => by
    rw [Resolve.resolveExpr]
    refine (resolveRole _ _).bind fun id => get.bind fun bindings => ?_
    refine (checkArity _ _ _ _).bind fun _ => (resolveArgs args _ _).bind fun args => ?_
    exact (symbol _).bind fun _ => Restores.pure _
  | .member base field _ span _ => by
    rw [Resolve.resolveExpr]
    refine (resolveExpr base).bind fun base => ?_
    split
    · refine get.bind fun bindings => ?_
      split
      · exact Restores.pure _
      · exact failBind _ _
    · exact failType _ _
  | .ifElse cond yes no span _ => by
    rw [Resolve.resolveExpr]
    refine (resolveExpr cond).bind fun cond => (checkCondition _).bind fun _ => ?_
    refine (resolveBlock yes).bind fun yes => (blockValue _).bind fun yesType => ?_
    refine (resolveBlock no).bind fun no => (blockValue _).bind fun noType => ?_
    exact ite (Restores.pure _) (failType _ _)
  | .ifOnly .. => failType _ _
  | .foreach .. => failType _ _
  | .block body _ => by
    rw [Resolve.resolveExpr]
    exact (resolveBlock body).bind fun body => (blockValue _).bind fun _ => Restores.pure _

theorem resolveArgs : ∀ (args : List Resolve.PExpr) (done : Array Resolve.TExpr)
    (expected : List Resolve.Expected), Restores false (Resolve.resolveArgs done args expected)
  | [], done, expected => Restores.pure _
  | _ :: _, done, [] => Restores.pure _
  | arg :: rest, done, (ty, mismatch) :: expected => by
    rw [Resolve.resolveArgs]
    refine (resolveExpr arg).bind fun arg => ?_
    exact ite (resolveArgs rest _ _) (failType _ _)

theorem resolveChain : ∀ (bodies : List Resolve.PExpr) (name : Ident) (declared : Ty)
    (done : Array Resolve.TExpr), Restores false (Resolve.resolveChain name declared done bodies)
  | [], name, declared, done => Restores.pure _
  | body :: rest, name, declared, done => by
    have resolved := resolveExpr body
    have plain : Restores false (do
        let body ← Resolve.resolveExpr body
        Resolve.checkLetBody name declared body
        Resolve.resolveChain name declared (done.push body) rest) :=
      resolved.bind fun body => (checkLetBody _ _ _).bind fun _ => resolveChain rest _ _ _
    cases body with
    | ifOnly cond yes span ty =>
      rw [Resolve.resolveChain]
      refine (resolveExpr cond).bind fun cond => (checkCondition _).bind fun _ => ?_
      refine (resolveBlock yes).bind fun yes => (blockValue _).bind fun ty => ?_
      exact (checkLetBody _ _ _).bind fun _ => resolveChain rest _ _ _
    | «foreach» element elementType source body sym span ty =>
      rw [Resolve.resolveChain]
      refine (resolveType _).bind fun elementTy => (resolveExpr source).bind fun source => ?_
      refine (checkElement _ _ _).bind fun _ => ?_
      refine within_two (declareLocal _ _) (fun _ => (resolveBlock body).weaken)
        fun id body => ?_
      refine (blockValue _).bind fun ty => ?_
      exact (checkLetBody _ _ _).bind fun _ => resolveChain rest _ _ _
    | _ => exact plain

theorem resolveBlock : ∀ body : Block .parsed, Restores false (Resolve.resolveBlock body)
  | ⟨stmts, span, _⟩ => by
    rw [Resolve.resolveBlock]
    exact within_two (hoist stmts) (fun ids => resolveStmts stmts _ ids) fun _ _ => Restores.pure _

theorem resolveStmts : ∀ (stmts : List Resolve.PStmt) (done : Array Resolve.TStmt)
    (ids : List (Option SymbolId)), Restores true (Resolve.resolveStmts done stmts ids)
  | [], done, ids => Restores.pure _
  | first :: rest, done, ids => by
    rw [Resolve.resolveStmts]
    exact (resolveStmt first _).bind fun stmt => resolveStmts rest _ _

theorem resolveStmt : ∀ (stmt : Resolve.PStmt) (id : SymbolId),
    Restores true (Resolve.resolveStmt id stmt)
  | .letIn name type first chained span _, id => by
    rw [Resolve.resolveStmt]
    refine (resolveType _).bind fun declared => ?_
    refine within (resolveExpr first).weaken fun first => ?_
    refine (checkLetBody _ _ _).bind fun _ => (declareLocal _ _).bind fun sym => ?_
    exact (resolveChain chained _ _ _).weaken.bind fun chained => Restores.pure _
  | .func name params returns body span _, id => by
    rw [Resolve.resolveStmt]
    refine (symbol _).bind fun found => ?_
    split
    · refine inFunction _ _ (resolveBlock body) fun body => ?_
      refine (blockValue _).bind fun bodyType => ?_
      exact ite (Restores.pure _) (failType _ _)
    · exact failBind _ _
  | .record name fields span _, id => by
    rw [Resolve.resolveStmt]
    exact get.bind fun _ => Restores.pure _
  | .expr value, id => by
    rw [Resolve.resolveStmt]
    exact (resolveExpr value).weaken.bind fun value => Restores.pure _

end

end Restores

end LetChain
