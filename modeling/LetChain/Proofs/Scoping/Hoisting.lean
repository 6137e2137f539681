import LetChain.Proofs.Scoping.Mirror

/-! What it means that a resolver in the scope arena and a lexical check agree, and that hoisting
does. -/

namespace LetChain

namespace Lexical

open Resolve (PExpr PStmt TExpr TStmt)

/-- Both fail with one error, or both succeed with the same symbols and related results. -/
def Agrees {α β : Type} (rel : α → Bindings → β → Prop) :
    Except CompileError (α × Bindings) → Except CompileError (β × Symbols) → Prop
  | .ok (a, b), .ok (c, symbols) => symbols = b.symbols.forgetScopes ∧ rel a b c
  | .error error, .error error' => error = error'
  | _, _ => False

namespace Agrees

variable {α β γ δ : Type}

variable {b : Bindings} {symbols : Symbols} {rel : α → Bindings → β → Prop}
  {run : Except CompileError (α × Bindings)}

theorem bind {m : Resolve α} {f : α → Resolve β} {m' : Check γ} {f' : γ → Check δ}
    {rel : α → Bindings → γ → Prop} {rel' : β → Bindings → δ → Prop}
    (first : Agrees rel (m b) (m' symbols))
    (next : ∀ a b' c, m b = .ok (a, b') → rel a b' c →
      Agrees rel' (f a b') (f' c b'.symbols.forgetScopes)) :
    Agrees rel' ((m >>= f) b) ((m' >>= f') symbols) := by
  change Agrees rel' (m b >>= fun p => f p.1 p.2) (m' symbols >>= fun p => f' p.1 p.2)
  cases ran : m b with
  | error error =>
    cases ran' : m' symbols with
    | error error' =>
      rw [ran, ran'] at first
      exact first
    | ok p =>
      rw [ran, ran'] at first
      exact first.elim
  | ok p =>
    obtain ⟨a, b'⟩ := p
    cases ran' : m' symbols with
    | error error' =>
      rw [ran, ran'] at first
      exact first.elim
    | ok p' =>
      obtain ⟨c, symbols'⟩ := p'
      rw [ran, ran'] at first
      obtain ⟨rfl, related⟩ := first
      exact next a b' c ran related

theorem mono {rel rel' : α → Bindings → β → Prop}
    {check : Except CompileError (β × Symbols)} (agreed : Agrees rel run check)
    (weaker : ∀ a b c, run = .ok (a, b) → rel a b c → rel' a b c) : Agrees rel' run check := by
  cases run with
  | error error =>
    cases check with
    | error error' => exact agreed
    | ok p => exact agreed
  | ok p =>
    cases check with
    | error error' => exact agreed
    | ok p' => exact ⟨agreed.1, weaker _ _ _ rfl agreed.2⟩

theorem succeeds {check : Except CompileError (β × Symbols)} (agreed : Agrees rel run check)
    (checked : ∃ p, check = .ok p) : ∃ a b, run = .ok (a, b) := by
  obtain ⟨p, rfl⟩ := checked
  cases run with
  | error error => exact agreed.elim
  | ok q => exact ⟨q.1, q.2, rfl⟩

theorem get {f : Bindings → Resolve α} {f' : Symbols → Check β}
    (agreed : Agrees rel (f b b) (f' symbols symbols)) :
    Agrees rel ((MonadState.get >>= f) b) ((MonadState.get >>= f') symbols) := agreed

theorem map {rel' : α → Bindings → γ → Prop} {m' : Check β} {f : β → γ}
    (agreed : Agrees rel run (m' symbols)) (related : ∀ a b c, rel a b c → rel' a b (f c)) :
    Agrees rel' run ((m' >>= fun c => pure (f c)) symbols) := by
  change Agrees rel' run (m' symbols >>= fun p => .ok (f p.1, p.2))
  cases run with
  | error error =>
    cases ran' : m' symbols with
    | error error' =>
      rw [ran'] at agreed
      exact agreed
    | ok p =>
      rw [ran'] at agreed
      exact agreed
  | ok p =>
    cases ran' : m' symbols with
    | error error' =>
      rw [ran'] at agreed
      exact agreed
    | ok p' =>
      rw [ran'] at agreed
      exact ⟨agreed.1, related _ _ _ agreed.2⟩

theorem require {condition : Prop} [Decidable condition] {error : CompileError} :
    Agrees (fun _ b' _ => b' = b)
      ((if condition then pure () else throw error : Resolve Unit) b)
      (Lexical.require condition error b.symbols.forgetScopes) := by
  unfold Lexical.require
  by_cases met : condition
  · simp only [if_pos met]
    exact ⟨rfl, rfl⟩
  · simp only [if_neg met]
    exact rfl

theorem guard {condition : Prop} [Decidable condition] {error : CompileError} {m : Resolve α}
    {m' : Check β}
    (agreed : condition → Agrees rel (m b) (m' symbols)) :
    Agrees rel ((if condition then m else throw error) b)
      ((Lexical.require condition error >>= fun _ => m') symbols) := by
  unfold Lexical.require
  by_cases met : condition
  · simp only [if_pos met, pure_bind]
    exact agreed met
  · simp only [if_neg met]
    exact rfl

end Agrees

abbrev Unmoved {α : Type} (before : Bindings) (a : α) (after : Bindings) (c : α) : Prop :=
  a = c ∧ after = before

/-! ### Types -/

mutual

theorem typeOf_eq {b : Bindings} {env : Env} (tracked : Tracks b env) :
    ∀ type : TypeRef, Resolve.typeOf b.scopes type = typeOf env type
  | ⟨name, args, span⟩ => by
    rw [Resolve.typeOf, tracked.lookupType, typesOf_eq tracked args]
    rfl

theorem typesOf_eq {b : Bindings} {env : Env} (tracked : Tracks b env) :
    ∀ types : List TypeRef, Resolve.typesOf b.scopes types = typesOf env types
  | [] => rfl
  | first :: rest => by
    rw [Resolve.typesOf, typesOf, typeOf_eq tracked first, typesOf_eq tracked rest]

end

theorem resolveType_agrees {b : Bindings} {env : Env} (tracked : Tracks b env) (type : TypeRef) :
    Agrees (Unmoved b) (Resolve.resolveType type b)
      ((liftM (typeOf env type) : Check Ty) b.symbols.forgetScopes) := by
  change Agrees _ ((liftM (Resolve.typeOf b.scopes type) : Resolve Ty) b) _
  rw [typeOf_eq tracked]
  cases typeOf env type with
  | error error => exact rfl
  | ok ty => exact ⟨rfl, rfl, rfl⟩

theorem resolveTypes_eq {b : Bindings} {env : Env} (tracked : Tracks b env)
    (params : List (Binding .parsed)) (done : Array Ty) :
    Resolve.resolveTypes done params b =
      (typesOf env (params.map (·.type))).map fun types => (done.toList ++ types, b) := by
  induction params generalizing done with
  | nil =>
    change Except.ok (done.toList, b) = Except.ok (done.toList ++ [], b)
    rw [List.append_nil]
  | cons param rest ih =>
    have first : Resolve.resolveType param.type b =
        (typeOf env param.type).map fun ty => (ty, b) := by
      change (liftM (Resolve.typeOf b.scopes param.type) : Resolve Ty) b = _
      rw [typeOf_eq tracked]
      cases typeOf env param.type <;> rfl
    change (Resolve.resolveType param.type b >>= fun p =>
      Resolve.resolveTypes (done.push p.1) rest p.2) = _
    rw [first, List.map_cons, typesOf]
    cases typeOf env param.type with
    | error error => rfl
    | ok ty =>
      change Resolve.resolveTypes (done.push ty) rest b = _
      rw [ih]
      cases typesOf env (rest.map (·.type)) with
      | error error => rfl
      | ok types => simp [Except.map, bind, Except.bind, pure, Except.pure]

theorem resolveTypes_agrees {b : Bindings} {env : Env} (tracked : Tracks b env)
    (params : List (Binding .parsed)) :
    Agrees (Unmoved b) (Resolve.resolveTypes #[] params b)
      ((liftM (typesOf env (params.map (·.type))) : Check (List Ty)) b.symbols.forgetScopes) := by
  rw [resolveTypes_eq tracked]
  cases typesOf env (params.map (·.type)) with
  | error error => exact rfl
  | ok types => exact ⟨rfl, by simp, rfl⟩

/-! ### Declaring -/

theorem addSymbol_agrees {b : Bindings} {symbol symbol' : Symbol}
    (same : symbol' = symbol.forgetScope) :
    Agrees (fun id b' id' => id = id' ∧ id = b.symbols.size ∧
        b' = { b with symbols := b.symbols.push symbol })
      (Resolve.addSymbol symbol b) (addSymbol symbol' b.symbols.forgetScopes) := by
  subst same
  exact ⟨(Symbols.push_forgetScopes _ _).symm, (Symbols.size_forgetScopes _).symm, rfl, rfl⟩

theorem declare_agrees {b : Bindings} {env : Env} (tracked : Tracks b env) (ident : Ident)
    (id : SymbolId) :
    Agrees (fun _ b' env' => Tracks b' env' ∧ b'.symbols = b.symbols ∧
        env' = { env with layer.names := env.layer.names ++ [(ident.text, id)] })
      (Resolve.declare ident id b)
      ((liftM (env.declare ident id) : Check Env) b.symbols.forgetScopes) := by
  obtain ⟨symbols, ⟨scopes, current⟩, owner⟩ := b
  obtain ⟨chain, sameOwner⟩ := tracked
  obtain ⟨scope, found, mirrored⟩ := chain.head
  have own : Scopes.own? ⟨scopes, current⟩ ident.text = env.layer.names.lookup ident.text := by
    rw [← mirrored.names]
    simp only at found
    simp [Scopes.own?, found]
  simp only [Resolve.declare, Scopes.declare, Env.declare, own]
  cases absent : env.layer.names.lookup ident.text with
  | some previous => exact rfl
  | none =>
    refine ⟨rfl, ⟨?_, sameOwner⟩, rfl, rfl⟩
    refine chain.modify (fun scope => { scope with names := scope.names.insert ident.text id })
      (fun _ => rfl) ?_
    intro scope' found'
    cases found.symm.trans found'
    exact mirrored.addName _ _ absent

theorem declareType_agrees {b : Bindings} {env : Env} (tracked : Tracks b env) (ident : Ident)
    (ty : Ty) :
    Agrees (fun _ b' env' => Tracks b' env' ∧ b'.symbols = b.symbols)
      (Resolve.declareType ident ty b)
      ((liftM (env.declareType ident ty) : Check Env) b.symbols.forgetScopes) := by
  obtain ⟨symbols, ⟨scopes, current⟩, owner⟩ := b
  obtain ⟨chain, sameOwner⟩ := tracked
  obtain ⟨scope, found, mirrored⟩ := chain.head
  have own : Scopes.ownType? ⟨scopes, current⟩ ident.text =
      env.layer.types.lookup ident.text := by
    rw [← mirrored.types]
    simp only at found
    simp [Scopes.ownType?, found]
  simp only [Resolve.declareType, Scopes.declareType?, Env.declareType, own]
  cases absent : env.layer.types.lookup ident.text with
  | some previous => exact rfl
  | none =>
    refine ⟨rfl, ⟨?_, sameOwner⟩, rfl⟩
    refine chain.modify (fun scope => { scope with types := scope.types.insert ident.text ty })
      (fun _ => rfl) ?_
    intro scope' found'
    cases found.symm.trans found'
    exact mirrored.addType _ _ absent

theorem recordName_agrees {b : Bindings} {env : Env} (tracked : Tracks b env) (name : Ident)
    (span : Span) :
    Agrees (fun id b' p => id = p.2 ∧ Tracks b' p.1) (Resolve.declareRecordName name span b)
      (recordName env name span b.symbols.forgetScopes) := by
  refine Agrees.get ?_
  rw [Symbols.size_forgetScopes]
  refine Agrees.bind (addSymbol_agrees rfl) ?_
  rintro id b₁ _ ran ⟨rfl, -, -⟩
  have tracked₁ := tracked.keep (Restores.addSymbol _ _ _ _ ran)
  refine Agrees.bind (declare_agrees tracked₁ name _) ?_
  rintro _ b₂ env₂ - ⟨tracked₂, -, -⟩
  refine Agrees.bind (declareType_agrees tracked₂ name _) ?_
  rintro _ b₃ env₃ - ⟨tracked₃, -⟩
  exact ⟨rfl, rfl, tracked₃⟩

theorem recordNames_agrees {b : Bindings} {env : Env} (tracked : Tracks b env)
    (stmts : List PStmt) (done : Array (Option SymbolId)) :
    Agrees (fun ids b' p => ids = done.toList ++ p.2 ∧ p.2.length = stmts.length ∧ Tracks b' p.1)
      (Resolve.declareRecordNames done stmts b)
      (recordNames env stmts b.symbols.forgetScopes) := by
  induction stmts generalizing b env done with
  | nil => exact ⟨rfl, by simp, rfl, tracked⟩
  | cons stmt rest ih =>
    have skipped : Agrees (fun ids b' p => ids = done.toList ++ p.2 ∧
          p.2.length = (stmt :: rest).length ∧ Tracks b' p.1)
        (Resolve.declareRecordNames (done.push none) rest b)
        ((recordNames env rest >>= fun p => pure (p.1, none :: p.2) :
          Check (Env × List (Option SymbolId))) b.symbols.forgetScopes) := by
      refine Agrees.map (ih tracked (done.push none)) ?_
      rintro ids b' p ⟨rfl, length, tracked'⟩
      exact ⟨by simp, by simp [length], tracked'⟩
    cases stmt with
    | record name fields span sym =>
      refine Agrees.bind (recordName_agrees tracked name span) ?_
      rintro id b₁ ⟨env₁, _⟩ - ⟨rfl, tracked₁⟩
      refine Agrees.map (f := fun p => (p.1, some id :: p.2))
        (ih tracked₁ (done.push (some id))) ?_
      rintro ids b' p ⟨rfl, length, tracked'⟩
      exact ⟨by simp, by simp [length], tracked'⟩
    | _ => exact skipped

theorem fields_agrees {b : Bindings} {env : Env} (tracked : Tracks b env) (record index : Nat)
    (seen : Std.HashSet String) (seen' : List String)
    (sameSeen : ∀ name, seen.contains name = true ↔ name ∈ seen') (done : Array SymbolId)
    (declared : List (Binding .parsed)) :
    Agrees (fun ids _ ids' => ids = done.toList ++ ids')
      (Resolve.declareFields record index seen done declared b)
      (fields env record index seen' declared b.symbols.forgetScopes) := by
  induction declared generalizing b index seen seen' done with
  | nil => exact ⟨rfl, by simp⟩
  | cons field rest ih =>
    rw [Resolve.declareFields, fields]
    by_cases twice : seen.contains field.name.text = true
    · have member := (sameSeen _).mp twice
      simp only [twice, if_true, Lexical.require, member, not_true_eq_false, if_false]
      exact rfl
    · have absent : field.name.text ∉ seen' := fun member => twice ((sameSeen _).mpr member)
      simp only [twice, Lexical.require, absent, not_false_eq_true, if_true, pure_bind]
      refine Agrees.bind (resolveType_agrees tracked field.type) ?_
      rintro ty b₁ _ - ⟨rfl, rfl⟩
      refine Agrees.bind Agrees.require ?_
      rintro _ b₂ _ - rfl
      refine Agrees.bind (addSymbol_agrees rfl) ?_
      rintro id b₃ _ ran ⟨rfl, -, -⟩
      have tracked₃ := tracked.keep (Restores.addSymbol _ _ _ _ ran)
      have seenNow : ∀ name, (seen.insert field.name.text).contains name = true ↔
          name ∈ field.name.text :: seen' := by
        intro name
        simp only [Std.HashSet.contains_insert, Bool.or_eq_true, beq_iff_eq, sameSeen,
          List.mem_cons]
        rw [eq_comm]
      refine Agrees.map (ih tracked₃ (index + 1) _ _ seenNow (done.push id)) ?_
      rintro ids b' ids' rfl
      simp

theorem setKind_agrees {b : Bindings} {kind kind' : SymbolKind} (id : SymbolId)
    (same : kind' = kind.forgetScope) :
    Agrees (fun _ b' _ => b' = { b with symbols := b.symbols.setKind id kind })
      (Resolve.setKind id kind b) (setKind id kind' b.symbols.forgetScopes) := by
  subst same
  exact ⟨(Symbols.setKind_forgetScopes _ _ _).symm, rfl⟩

theorem allFields_agrees {b : Bindings} {env : Env} (tracked : Tracks b env)
    (pairs : List (PStmt × Option SymbolId)) :
    Agrees (fun _ b' _ => Tracks b' env) (Resolve.declareAllFields pairs b)
      (allFields env pairs b.symbols.forgetScopes) := by
  induction pairs generalizing b with
  | nil => exact ⟨rfl, tracked⟩
  | cons pair rest ih =>
    obtain ⟨stmt, id?⟩ := pair
    cases stmt with
    | record name declared span sym =>
      cases id? with
      | none => exact ih tracked
      | some id =>
        rw [Resolve.declareAllFields, allFields]
        refine Agrees.bind (fields_agrees tracked id 0 ∅ [] (by simp) #[] declared) ?_
        rintro ids b₁ _ ran rfl
        have tracked₁ := tracked.keep (Restores.declareFields _ _ _ _ _ _ _ _ ran)
        refine Agrees.bind (setKind_agrees id rfl) ?_
        rintro _ b₂ _ - rfl
        exact ih ⟨tracked₁.chain, tracked₁.owner⟩
    | _ => exact ih tracked

theorem params_agrees {b : Bindings} {env : Env} (tracked : Tracks b env) (owner index : Nat)
    (done : Array SymbolId) (declared : List (Binding .parsed × Ty)) :
    Agrees (fun ids b' ids' => ids = done.toList ++ ids' ∧ ids'.length = declared.length ∧
        Tracks b' { env with
          layer.names := env.layer.names ++ (declared.map (·.1.name.text)).zip ids' })
      (Resolve.declareParams owner index done declared b)
      (params env owner index declared b.symbols.forgetScopes) := by
  induction declared generalizing b env index done with
  | nil => exact ⟨rfl, by simp, rfl, by simpa using tracked⟩
  | cons pair rest ih =>
    obtain ⟨param, ty⟩ := pair
    rw [Resolve.declareParams, params]
    refine Agrees.bind Agrees.require ?_
    rintro _ b₁ _ - rfl
    refine Agrees.bind (addSymbol_agrees rfl) ?_
    rintro id b₂ _ ran ⟨rfl, -, -⟩
    have tracked₂ := tracked.keep (Restores.addSymbol _ _ _ _ ran)
    refine Agrees.bind (declare_agrees tracked₂ param.name id) ?_
    rintro _ b₃ env₃ - ⟨tracked₃, -, rfl⟩
    refine Agrees.map (ih tracked₃ (index + 1) (done.push id)) ?_
    rintro ids b' ids' ⟨rfl, length, tracked'⟩
    refine ⟨by simp, by simp [length], ?_⟩
    simpa using tracked'

/-- The symbol of a hoisted function has a scope inside the current one that holds its parameters. -/
def Hoisted (b : Bindings) (params : List (Binding .parsed)) (id : SymbolId) : Prop :=
  ∃ symbol ids returns scope here, b.symbols[id]? = some symbol ∧
    symbol.kind = .function ids returns scope ∧ b.scopes.current < scope ∧
    b.scopes.scopes[scope]? = some here ∧ here.parent = some b.scopes.current ∧
    Layer.Mirrors ⟨(params.map (·.name.text)).zip ids, []⟩ here

theorem Hoisted.keep {b b' : Bindings} {params : List (Binding .parsed)} {id : SymbolId}
    (hoisted : Hoisted b params id)
    (kept : Keeps b.symbols.size b.scopes.scopes.size true b b') : Hoisted b' params id := by
  obtain ⟨symbol, ids, returns, scope, here, found, kind, inside, isHere, parent, mirrored⟩ := hoisted
  refine ⟨symbol, ids, returns, scope, here, ?_, kind, ?_, ?_, ?_, mirrored⟩
  · rw [kept.symbol id (Array.getElem?_eq_some_iff.mp found).1, found]
  · rw [kept.current]
    exact inside
  · rw [kept.scope scope (Array.getElem?_eq_some_iff.mp isHere).1 (fun _ => Nat.ne_of_gt inside),
      isHere]
  · rw [kept.current]
    exact parent

def StmtHoisted (b : Bindings) (id : SymbolId) : PStmt → Prop
  | .func _ params _ _ _ _ => Hoisted b params id
  | _ => True

theorem StmtHoisted.keep {b b' : Bindings} {id : SymbolId} {stmt : PStmt}
    (hoisted : StmtHoisted b id stmt)
    (kept : Keeps b.symbols.size b.scopes.scopes.size true b b') : StmtHoisted b' id stmt := by
  cases stmt with
  | func name params returns body span sym => exact Hoisted.keep hoisted kept
  | _ => trivial

/-- Every function among the statements is hoisted under the symbol that is given for it. -/
def AllHoisted (b : Bindings) : List PStmt → List (Option SymbolId) → Prop
  | [], _ => True
  | first :: rest, ids => StmtHoisted b (ids.head?.join.getD 0) first ∧ AllHoisted b rest ids.tail

theorem AllHoisted.keep {b b' : Bindings} (stmts : List PStmt) (ids : List (Option SymbolId))
    (hoisted : AllHoisted b stmts ids)
    (kept : Keeps b.symbols.size b.scopes.scopes.size true b b') : AllHoisted b' stmts ids := by
  induction stmts generalizing ids with
  | nil => trivial
  | cons stmt rest ih => exact ⟨hoisted.1.keep kept, ih ids.tail hoisted.2⟩

theorem zip_names (declared : List (Binding .parsed)) (types : List Ty) (ids : List SymbolId)
    (length : ids.length = (declared.zip types).length) :
    ((declared.zip types).map (·.1.name.text)).zip ids =
      (declared.map (·.name.text)).zip ids := by
  induction declared generalizing types ids with
  | nil => rfl
  | cons param rest ih =>
    cases types with
    | nil => simp [List.length_eq_zero_iff.mp length]
    | cons ty types =>
      cases ids with
      | nil => simp
      | cons id ids => simpa using ih types ids (by simpa using length)

theorem addChild_keeps (b : Bindings) :
    Keeps b.symbols.size b.scopes.scopes.size false b { b with scopes := b.scopes.addChild } := by
  refine ⟨rfl, rfl, Nat.le_refl _, by simp [Scopes.addChild], fun _ _ => rfl, ?_, ?_⟩
  · intro id bound
    simp [Scopes.addChild, Array.getElem?_push, Nat.ne_of_lt bound]
  · intro id bound _
    simp [Scopes.addChild, Array.getElem?_push, Nat.ne_of_lt bound]

theorem addScope_bind {α : Type} (f : ScopeId → Resolve α) (b : Bindings) :
    (Resolve.addScope >>= f) b =
      f b.scopes.scopes.size { b with scopes := b.scopes.addChild } := rfl

theorem enterScope_bind {α : Type} (scope : ScopeId) (f : ScopeId → Resolve α) (b : Bindings) :
    (Resolve.enterScope scope >>= f) b =
      f b.scopes.current { b with scopes := b.scopes.enter scope } := rfl

theorem modifyScopes_bind {α : Type} (change : Scopes → Scopes) (f : Unit → Resolve α)
    (b : Bindings) :
    (Resolve.modifyScopes change >>= f) b = f () { b with scopes := change b.scopes } := rfl

theorem function_agrees {b : Bindings} {env : Env} (tracked : Tracks b env) (name : Ident)
    (declared : List (Binding .parsed)) (returns : TypeRef) (span : Span) :
    Agrees (fun id b' p => id = p.2 ∧ Tracks b' p.1 ∧ Hoisted b' declared id)
      (Resolve.declareFunction name declared returns span b)
      (function env name declared returns span b.symbols.forgetScopes) := by
  refine Agrees.bind (resolveType_agrees tracked returns) ?_
  rintro returnType b _ - ⟨rfl, rfl⟩
  rw [addScope_bind]
  have tracked₁ := tracked.keep (addChild_keeps b)
  have inside : b.scopes.current < b.scopes.scopes.size := tracked.chain.bound
  have empty : b.scopes.addChild.scopes[b.scopes.scopes.size]? =
      some ⟨some b.scopes.current, ∅, ∅⟩ := by
    simp [Scopes.addChild]
  have wider : b.scopes.scopes.size < b.scopes.addChild.scopes.size := by
    simp [Scopes.addChild]
  generalize b.scopes.scopes.size = scope at inside empty wider ⊢
  refine Agrees.bind (addSymbol_agrees rfl) ?_
  rintro id b₂ _ ranSymbol ⟨rfl, idEq, b₂Eq⟩
  have kept₂ : Keeps _ _ true _ b₂ := Restores.addSymbol _ _ _ _ ranSymbol
  have tracked₂ := tracked₁.keep (Restores.addSymbol _ _ _ _ ranSymbol)
  refine Agrees.bind (declare_agrees tracked₂ name id) ?_
  rintro _ b₃ env₃ ranName ⟨tracked₃, sameSymbols, -⟩
  have kept₃ := kept₂.trans ((Restores.declare _ _ _ _ _ ranName).lower kept₂.moreSymbols
    kept₂.moreScopes)
  refine Agrees.bind (resolveTypes_agrees tracked₃ declared) ?_
  rintro types b₃ _ - ⟨rfl, rfl⟩
  rw [enterScope_bind]
  -- The new scope is still empty, and the parameters go there.
  have current₃ : b₃.scopes.current = b.scopes.current := kept₃.current
  have empty₃ : b₃.scopes.scopes[scope]? = some ⟨some b₃.scopes.current, ∅, ∅⟩ := by
    rw [kept₃.scope scope wider (fun _ => Nat.ne_of_gt inside), current₃]
    exact empty
  have trackedInside : Tracks { b₃ with scopes := b₃.scopes.enter scope } env₃.inner := by
    refine ⟨Chain.child empty₃ rfl ?_ (Layer.mirrors_empty _) tracked₃.chain, tracked₃.owner⟩
    rw [current₃]
    exact inside
  refine Agrees.bind (params_agrees trackedInside id 0 #[] (declared.zip types)) ?_
  rintro ids b₄ _ ranParams ⟨rfl, length, tracked₄⟩
  have kept₄ := Restores.declareParams _ _ _ _ _ _ _ ranParams
  rw [enterScope_bind]
  refine Agrees.bind (setKind_agrees id rfl) ?_
  rintro _ b₅ _ - rfl
  refine ⟨rfl, rfl, ⟨?_, ?_⟩, ?_⟩
  · refine tracked₃.chain.congr fun other before => ?_
    have older : other < scope := by
      rw [current₃] at before
      exact Nat.lt_of_le_of_lt before inside
    refine kept₄.scope other ?_ (fun _ => Nat.ne_of_lt older)
    exact Nat.lt_trans older (Array.getElem?_eq_some_iff.mp empty₃).1
  · exact tracked₃.owner.trans kept₄.owner.symm
  · have known : id < b₄.symbols.size := by
      have pushed : id < b₂.symbols.size := by
        rw [b₂Eq, idEq]
        simp
      have more := kept₄.moreSymbols
      simp only [sameSymbols] at more
      exact Nat.lt_of_lt_of_le pushed more
    obtain ⟨here, isHere, mirrored⟩ := tracked₄.chain.head
    have current₄ : b₄.scopes.current = scope := kept₄.current
    rw [current₄] at isHere
    have parent := kept₄.parent scope (Array.getElem?_eq_some_iff.mp empty₃).1
    rw [isHere] at parent
    simp only [Scopes.enter, empty₃, Option.map_some, Option.some.injEq] at parent
    have names := zip_names declared types _ length
    simp only [Env.inner, List.nil_append, names] at mirrored
    refine ⟨{ b₄.symbols[id] with kind := .function _ returnType scope }, _, returnType, scope,
      here, ?_, rfl, ?_, isHere, parent, mirrored⟩
    · simp only [Symbols.setKind, Array.getElem?_modify, if_true,
        Array.getElem?_eq_getElem known, Option.map_some]
    · simp only [Scopes.enter, current₃]
      exact inside

theorem functions_agrees {b : Bindings} {env : Env} (tracked : Tracks b env)
    (pairs : List (PStmt × Option SymbolId)) (done : Array (Option SymbolId)) :
    Agrees (fun ids b' p => ids = done.toList ++ p.2 ∧ Tracks b' p.1 ∧
        AllHoisted b' (pairs.map (·.1)) p.2)
      (Resolve.declareFunctions done pairs b)
      (functions env pairs b.symbols.forgetScopes) := by
  induction pairs generalizing b env done with
  | nil => exact ⟨rfl, by simp, tracked, trivial⟩
  | cons pair rest ih =>
    obtain ⟨stmt, id?⟩ := pair
    cases stmt with
    | func name params returns body span sym =>
      refine Agrees.bind (function_agrees tracked name params returns span) ?_
      rintro id b₁ ⟨env₁, _⟩ - ⟨rfl, tracked₁, hoisted⟩
      refine Agrees.map (f := fun p => (p.1, some id :: p.2)) (Agrees.mono
        (ih tracked₁ (done.push (some id))) (fun ids b' p ran related => And.intro
          (Restores.declareFunctions _ _ _ _ _ ran) related)) ?_
      rintro ids b' p ⟨kept, rfl, tracked', rest⟩
      exact ⟨by simp, tracked', Hoisted.keep hoisted kept, rest⟩
    | _ =>
      refine Agrees.map (f := fun p => (p.1, id? :: p.2)) (ih tracked (done.push id?)) ?_
      rintro ids b' p ⟨rfl, tracked', rest⟩
      exact ⟨by simp, tracked', trivial, rest⟩

theorem hoist_agrees {b : Bindings} {env : Env} (tracked : Tracks b env) (stmts : List PStmt) :
    Agrees (fun ids b' p => ids = p.2 ∧ Tracks b' p.1 ∧ AllHoisted b' stmts ids)
      (Resolve.hoist stmts b) (hoist env stmts b.symbols.forgetScopes) := by
  refine Agrees.bind (recordNames_agrees tracked stmts #[]) ?_
  rintro records b₁ ⟨env₁, _⟩ - ⟨rfl, length, tracked₁⟩
  refine Agrees.bind (allFields_agrees tracked₁ _) ?_
  rintro _ b₂ _ - tracked₂
  refine Agrees.mono (functions_agrees tracked₂ _ #[]) ?_
  rintro ids b₃ ⟨env₃, _⟩ - ⟨rfl, tracked₃, hoisted⟩
  rw [List.map_fst_zip (Nat.le_of_eq length.symm)] at hoisted
  exact ⟨rfl, tracked₃, hoisted⟩

end Lexical

end LetChain
