import LetChain.Proofs.Scoping.Agreement

/-! Which names are visible where. Lookups from the current scope see only scopes that were there
when it was entered, so what a block or an expression declares is gone after it, and a let is seen
from its chained bodies on. -/

namespace LetChain

open Stateful (bind_eq_ok)

namespace Scopes

theorem searchFrom_congr {α : Type} {scopes scopes' : Array Scope} (find : Scope → Option α)
    (id : ScopeId) (same : ∀ other, other ≤ id → scopes'[other]? = scopes[other]?) :
    searchFrom? scopes' find id = searchFrom? scopes find id := by
  induction id using Nat.strongRecOn with
  | ind id ih =>
    rw [searchFrom?, searchFrom?, same id (Nat.le_refl _)]
    cases scopes[id]? with
    | none => rfl
    | some scope =>
      simp only
      split
      · rfl
      · rename_i parent _ _
        split
        · rename_i below
          exact ih parent below fun other before =>
            same other (Nat.le_trans before (Nat.le_of_lt below))
        · rfl
      · rfl

structure SeesAs (arena arena' : Scopes) : Prop where
  name : ∀ name, arena.lookup? name = arena'.lookup? name
  type : ∀ name, arena.lookupType? name = arena'.lookupType? name

theorem push_seesAs (arena : Scopes) (bound : arena.current < arena.scopes.size) :
    arena.push.SeesAs arena := by
  obtain ⟨scopes, current⟩ := arena
  have past {α : Type} (find : Scope → Option α) (empty : find ⟨some current, ∅, ∅⟩ = none) :
      searchFrom? (scopes.push ⟨some current, ∅, ∅⟩) find scopes.size =
        searchFrom? scopes find current := by
    rw [searchFrom?, Array.getElem?_push_size]
    simp only [empty, if_pos bound]
    refine searchFrom_congr find current fun other before => ?_
    have older : other < scopes.size := Nat.lt_of_le_of_lt before bound
    simp [Array.getElem?_push, Nat.ne_of_lt older]
  exact ⟨fun name => past _ (by simp), fun name => past _ (by simp)⟩

theorem searchFrom_modify {α : Type} (scopes : Array Scope) {find : Scope → Option α}
    {f : Scope → Scope} (id : ScopeId) (parent : ∀ scope, (f scope).parent = scope.parent)
    (same : ∀ scope, find (f scope) = find scope) :
    searchFrom? (scopes.modify id f) find id = searchFrom? scopes find id := by
  rw [searchFrom?, searchFrom?, Array.getElem?_modify, if_pos rfl]
  cases scopes[id]? with
  | none => rfl
  | some scope =>
    simp only [Option.map_some, parent, same]
    split
    · rfl
    · split
      · rename_i outer _ _ below
        refine searchFrom_congr find outer fun other before => ?_
        rw [Array.getElem?_modify, if_neg (Nat.ne_of_gt (Nat.lt_of_le_of_lt before below))]
      · rfl
    · rfl

theorem lookup_declare {arena arena' : Scopes} {name : String} {id : SymbolId}
    (bound : arena.current < arena.scopes.size) (declared : arena.declare name id = .ok arena')
    (other : String) :
    arena'.lookup? other = if other = name then some id else arena.lookup? other := by
  obtain ⟨scopes, current⟩ := arena
  simp only at bound
  unfold declare at declared
  split at declared
  · cases declared
  · cases declared
    by_cases same : other = name
    · rw [if_pos same, lookup?, searchFrom?, Array.getElem?_modify, if_pos rfl,
        Array.getElem?_eq_getElem bound]
      simp [same]
    · rw [if_neg same]
      refine searchFrom_modify scopes current
        (f := fun scope => { scope with names := scope.names.insert name id }) (fun _ => rfl)
        fun scope => ?_
      simp [Std.HashMap.getElem?_insert, Ne.symm same]

theorem lookupType_declare {arena arena' : Scopes} {name : String} {id : SymbolId}
    (declared : arena.declare name id = .ok arena') (other : String) :
    arena'.lookupType? other = arena.lookupType? other := by
  obtain ⟨scopes, current⟩ := arena
  unfold declare at declared
  split at declared
  · cases declared
  · cases declared
    exact searchFrom_modify scopes current
      (f := fun scope => { scope with names := scope.names.insert name id }) (fun _ => rfl)
      fun _ => rfl

end Scopes

theorem Keeps.seesAs {n : Nat} {b b' : Bindings}
    (kept : Keeps n b.scopes.scopes.size false b b')
    (bound : b.scopes.current < b.scopes.scopes.size) : b'.scopes.SeesAs b.scopes := by
  have same {α : Type} (find : Scope → Option α) :
      Scopes.searchFrom? b'.scopes.scopes find b'.scopes.current =
        Scopes.searchFrom? b.scopes.scopes find b.scopes.current := by
    rw [kept.current]
    refine Scopes.searchFrom_congr find _ fun other before => ?_
    exact kept.scope other (Nat.lt_of_le_of_lt before bound) (by simp)
  exact ⟨fun _ => same _, fun _ => same _⟩

namespace Resolve

/-- The current scope is one of the arena. -/
def Placed (b : Bindings) : Prop := b.scopes.current < b.scopes.scopes.size

/-- A resolver that succeeds is back in the scope and the function in which it began. -/
def StaysPut {α : Type} (m : Resolve α) : Prop :=
  ∀ b a b', m b = .ok (a, b') → b'.scopes.current = b.scopes.current ∧ b'.owner = b.owner

/-- What a resolver declares on its way is not visible after it. -/
def Hides {α : Type} (m : Resolve α) : Prop :=
  ∀ b a b', Placed b → m b = .ok (a, b') → b'.scopes.SeesAs b.scopes

/-- Beside what is visible at `b`, the given name means a symbol. -/
def SeesAlso (name : String) (id : SymbolId) (b b' : Bindings) : Prop :=
  (∀ other, b'.scopes.lookup? other = if other = name then some id else b.scopes.lookup? other) ∧
    ∀ other, b'.scopes.lookupType? other = b.scopes.lookupType? other

theorem declareLocal_sees {ident : Ident} {ty : Ty} {b b' : Bindings} {id : SymbolId}
    (placed : Placed b) (ran : declareLocal ident ty b = .ok (id, b')) :
    SeesAlso ident.text id b b' ∧ b'.owner = b.owner := by
  unfold declareLocal at ran
  obtain ⟨_, _, got, ran⟩ := bind_eq_ok.mp ran
  obtain ⟨_, b₁, added, ran⟩ := bind_eq_ok.mp ran
  obtain ⟨_, b₂, declared, ran⟩ := bind_eq_ok.mp ran
  cases ran
  cases added
  cases got
  simp only [Resolve.declare] at declared
  split at declared
  · rename_i scopes found
    cases declared
    exact ⟨⟨Scopes.lookup_declare placed found, Scopes.lookupType_declare found⟩, rfl⟩
  · cases declared

theorem resolveType_state {type : TypeRef} {ty : Ty} {b b' : Bindings}
    (ran : resolveType type b = .ok (ty, b')) : b' = b := by
  change ((liftM (typeOf b.scopes type) : Resolve Ty) b) = _ at ran
  exact (Stateful.lift_eq_ok.mp ran).2.symm

theorem checkLetBody_state {name : Ident} {declared : Ty} {body : TExpr} {b b' : Bindings}
    {done : Unit} (ran : checkLetBody name declared body b = .ok (done, b')) : b' = b := by
  unfold checkLetBody at ran
  split at ran
  · cases ran
    rfl
  · cases ran

/-- The first body of a let is resolved where the same is visible as before the let, and its
chained bodies where its name is. -/
def LetScoping (name : Ident) (type : TypeRef) (first : PExpr) (chained : List PExpr) (span : Span)
    (stmt : TStmt) (b b' : Bindings) : Prop :=
  ∃ declared first' chained' sym inside inside' outside,
    stmt = .letIn name type first' chained' span sym ∧
    resolveExpr first inside = .ok (first', inside') ∧
    inside.scopes.SeesAs b.scopes ∧ inside.owner = b.owner ∧
    resolveChain name declared #[] chained outside = .ok (chained', b') ∧
    SeesAlso name.text sym b outside ∧ outside.owner = b.owner

theorem resolve_letIn {name : Ident} {type : TypeRef} {first : PExpr} {chained : List PExpr}
    {span : Span} {id : SymbolId} {stmt : TStmt} {b b' : Bindings} (placed : Placed b)
    (ran : resolveStmt id (.letIn name type first chained span ()) b = .ok (stmt, b')) :
    LetScoping name type first chained span stmt b b' := by
  rw [resolveStmt] at ran
  obtain ⟨declared, _, typed, ran⟩ := bind_eq_ok.mp ran
  obtain ⟨_, inside, push, ran⟩ := bind_eq_ok.mp ran
  obtain ⟨first', inside', ranFirst, ran⟩ := bind_eq_ok.mp ran
  obtain ⟨_, after, pop, ran⟩ := bind_eq_ok.mp ran
  obtain ⟨_, _, checked, ran⟩ := bind_eq_ok.mp ran
  obtain ⟨sym, outside, ranLocal, ran⟩ := bind_eq_ok.mp ran
  obtain ⟨chained', _, ranChain, ran⟩ := bind_eq_ok.mp ran
  cases ran
  obtain rfl := (resolveType_state typed).symm
  obtain rfl := (checkLetBody_state checked).symm
  cases push
  cases pop
  have kept : Keeps b.symbols.size b.scopes.scopes.size false b _ :=
    (Restores.resolveExpr first _ _ _ ranFirst).weaken.leave
  have placed' : Placed { inside' with scopes := inside'.scopes.pop } := by
    unfold Placed
    rw [kept.current]
    exact Nat.lt_of_lt_of_le placed kept.moreScopes
  have before := kept.seesAs placed
  obtain ⟨⟨names, types⟩, owner⟩ := declareLocal_sees placed' ranLocal
  refine ⟨declared, first', chained', sym, _, inside', outside, rfl, ranFirst,
    Scopes.push_seesAs _ placed, rfl, ranChain, ⟨fun other => ?_, fun other => ?_⟩,
    owner.trans kept.owner⟩
  · rw [names, before.name]
  · rw [types, before.type]

end Resolve

theorem Restores.staysPut {α : Type} {declares : Bool} {m : Resolve α}
    (restored : Restores declares m) : Resolve.StaysPut m :=
  fun b a b' ran => ⟨(restored b a b' ran).current, (restored b a b' ran).owner⟩

theorem Restores.hides {α : Type} {m : Resolve α} (restored : Restores false m) :
    Resolve.Hides m :=
  fun b a b' placed ran => (restored b a b' ran).seesAs placed

open Resolve in
/-- The scope arena implements lexical scoping: a module resolves to what the lexical checker makes
of it, or fails with its first error; every part of it ends in the scope and the function in which
it began; what expressions, chained bodies and blocks declare is not visible after them; and a let
is visible in its chained bodies but not in its first. -/
theorem resolve_lexically_scoped :
    (∀ (m : Module .parsed) (names : NameTable),
      (m.resolve names).map Resolved.forgetScopes = m.check names) ∧
    (∀ e, StaysPut (resolveExpr e) ∧ Hides (resolveExpr e)) ∧
    (∀ done args expected,
      StaysPut (resolveArgs done args expected) ∧ Hides (resolveArgs done args expected)) ∧
    (∀ name declared done bodies, StaysPut (resolveChain name declared done bodies) ∧
      Hides (resolveChain name declared done bodies)) ∧
    (∀ body, StaysPut (resolveBlock body) ∧ Hides (resolveBlock body)) ∧
    (∀ stmts, StaysPut (hoist stmts)) ∧
    (∀ done stmts ids, StaysPut (resolveStmts done stmts ids)) ∧
    (∀ id stmt, StaysPut (resolveStmt id stmt)) ∧
    ∀ name type first chained span id stmt b b', Placed b →
      resolveStmt id (.letIn name type first chained span ()) b = .ok (stmt, b') →
      LetScoping name type first chained span stmt b b' := by
  refine ⟨Module.forgetScopes_resolve, fun e => ?_, fun done args expected => ?_,
    fun name declared done bodies => ?_, fun body => ?_, fun stmts => ?_, fun done stmts ids => ?_,
    fun id stmt => ?_, ?_⟩
  · have restored := Restores.resolveExpr e
    exact ⟨restored.staysPut, restored.hides⟩
  · have restored := Restores.resolveArgs args done expected
    exact ⟨restored.staysPut, restored.hides⟩
  · have restored := Restores.resolveChain bodies name declared done
    exact ⟨restored.staysPut, restored.hides⟩
  · have restored := Restores.resolveBlock body
    exact ⟨restored.staysPut, restored.hides⟩
  · exact (Restores.hoist stmts).staysPut
  · exact (Restores.resolveStmts stmts done ids).staysPut
  · exact (Restores.resolveStmt stmt id).staysPut
  · intro name type first chained span id stmt b b' placed ran
    exact resolve_letIn placed ran

open Resolve in
/-- `let x: Number = 1 => x + x`, after the built-in types. -/
theorem resolve_lexically_scoped_chained_let :
    ∃ (b b' : Bindings) (stmt : TStmt) (x : Ident) (number : TypeRef), Placed b ∧
      resolveStmt 0 (.letIn x number (.number 1 x.span ())
        [.binary .add (.named x () x.span ()) (.named x () x.span ()) x.span ()] x.span ()) b =
        .ok (stmt, b') ∧
      LetScoping x number (.number 1 x.span ())
        [.binary .add (.named x () x.span ()) (.named x () x.span ()) x.span ()] x.span stmt b b' := by
  let x : Ident := ⟨"x", default⟩
  let number : TypeRef := ⟨⟨"Number", default⟩, [], default⟩
  have tracked := Lexical.builtin_tracked ⟨#["Number"], ∅⟩
  obtain ⟨stmt, b', ran⟩ := (Lexical.stmt_agrees (.letIn x number (.number 1 x.span ())
    [.binary .add (.named x () x.span ()) (.named x () x.span ()) x.span ()] x.span ()) 0
    tracked trivial).succeeds ⟨_, by rw [Symbols.empty_forgetScopes]; rfl⟩
  have placed : Placed _ := tracked.chain.bound
  exact ⟨_, b', stmt, x, number, placed, ran,
    resolve_lexically_scoped.2.2.2.2.2.2.2.2 _ _ _ _ _ _ _ _ _ placed ran⟩

end LetChain
