import LetChain.Proofs.Scoping.Hoisting

/-! Resolving in the scope arena and checking with plain environments come to the same: the same
typed tree and symbols, or the same first error. -/

namespace LetChain

namespace Lexical

open Resolve (PExpr PStmt TExpr TStmt)

abbrev Equal {α : Type} (a : α) (_ : Bindings) (c : α) : Prop := a = c

/-! ### Names in use -/

theorem value_agrees {b : Bindings} {env : Env} (tracked : Tracks b env) (ident : Ident) :
    Agrees (Unmoved b) (Resolve.resolveValue ident b)
      (value env ident b.symbols.forgetScopes) := by
  rw [Resolve.resolveValue, Stateful.get_bind, tracked.lookup, value]
  cases env.symbol? ident.text with
  | none => exact rfl
  | some id =>
    simp only [Stateful.get_bind, Symbols.get_forgetScopes, Symbol.forgetScope, ← tracked.owner]
    have permitted : Agrees (Unmoved b)
        ((if (b.symbols.get id).owner.isSome = true ∧ (b.symbols.get id).owner ≠ env.owner then
          Resolve.failBind ident.span (.captured ident.text)
        else pure id : Resolve SymbolId) b)
        ((if (b.symbols.get id).owner.isSome = true ∧ (b.symbols.get id).owner ≠ env.owner then
          throw (.bind ⟨ident.span, .captured ident.text⟩)
        else pure id : Check SymbolId) b.symbols.forgetScopes) := by
      split
      · exact rfl
      · exact ⟨rfl, rfl, rfl⟩
    cases (b.symbols.get id).kind with
    | param index => exact permitted
    | localVar => exact permitted
    | _ => exact rfl

theorem role_agrees {b : Bindings} {env : Env} (tracked : Tracks b env) (ident : Ident)
    (expected : String) :
    Agrees (Unmoved b) (Resolve.resolveRole ident expected b)
      (role env ident expected b.symbols.forgetScopes) := by
  rw [Resolve.resolveRole, Stateful.get_bind, tracked.lookup, role]
  cases env.symbol? ident.text with
  | none => exact rfl
  | some id =>
    simp only [Stateful.get_bind, Symbols.get_forgetScopes, Symbol.forgetScope, Symbols.role_forgetScope]
    by_cases same : (b.symbols.get id).kind.role = expected
    · simp only [if_pos same]
      exact ⟨rfl, rfl, rfl⟩
    · simp only [if_neg same]
      exact rfl

theorem addLocal_agrees {b : Bindings} {env : Env} (tracked : Tracks b env) (ident : Ident)
    (ty : Ty) :
    Agrees (fun id b' p => id = p.2 ∧ Tracks b' p.1) (Resolve.declareLocal ident ty b)
      (addLocal env ident ty b.symbols.forgetScopes) := by
  change Agrees _ ((do
    let id ← Resolve.addSymbol ⟨ident.text, ty, .localVar, ident.span, b.owner⟩
    Resolve.declare ident id
    return id : Resolve SymbolId) b) _
  rw [← tracked.owner]
  refine Agrees.bind (addSymbol_agrees rfl) ?_
  rintro id b₁ _ ran ⟨rfl, -, -⟩
  have tracked₁ := tracked.keep (Restores.addSymbol _ _ _ _ ran)
  refine Agrees.bind (declare_agrees tracked₁ ident id) ?_
  rintro _ b₂ env₂ - ⟨tracked₂, -, -⟩
  exact ⟨rfl, rfl, tracked₂⟩

theorem symbol_agrees {b : Bindings} (id : SymbolId) :
    Agrees (fun symbol b' symbols => b' = b ∧ symbol = b.symbols.get id ∧
        symbols = b.symbols.forgetScopes)
      (Resolve.symbol id b) ((get : Check Symbols) b.symbols.forgetScopes) :=
  ⟨rfl, rfl, rfl, rfl⟩

theorem blockValue_agrees {b : Bindings} (body : Block .typed) :
    Agrees (Unmoved b) (Resolve.blockValue body b) (blockValue body b.symbols.forgetScopes) := by
  unfold Resolve.blockValue blockValue
  cases body.ty with
  | none => exact rfl
  | some ty => exact ⟨rfl, rfl, rfl⟩

theorem isSource_agrees {b : Bindings} (source : TExpr) (elementType : TypeRef) (declared : Ty) :
    Agrees (fun _ b' _ => b' = b) (Resolve.checkElement source elementType declared b)
      (isSource source elementType declared b.symbols.forgetScopes) := by
  unfold Resolve.checkElement isSource
  cases source.ty.element? with
  | none => exact rfl
  | some actual => exact Agrees.require

theorem inFunction_bind {α β : Type} (scope : ScopeId) (owner : SymbolId) (m : Resolve α)
    (f : α → Resolve β) (b : Bindings) :
    (do
      let previousScope ← Resolve.enterScope scope
      let previousOwner := (← get).owner
      Resolve.setOwner (some owner)
      let a ← m
      Resolve.setOwner previousOwner
      let _ ← Resolve.enterScope previousScope
      f a : Resolve β) b =
      (m >>= fun a b' => f a ⟨b'.symbols, b'.scopes.enter b.scopes.current, b.owner⟩)
        ⟨b.symbols, b.scopes.enter scope, some owner⟩ := rfl

/-! ### Trees -/

mutual

theorem expr_agrees : ∀ (e : PExpr) {b : Bindings} {env : Env}, Tracks b env →
    Agrees Equal (Resolve.resolveExpr e b) (expr env e b.symbols.forgetScopes)
  | .number .., _, _, _ => ⟨rfl, rfl⟩
  | .string .., _, _, _ => ⟨rfl, rfl⟩
  | .bool .., _, _, _ => ⟨rfl, rfl⟩
  | .named name _ span _, b, env, tracked => by
    rw [Resolve.resolveExpr, expr]
    refine Agrees.bind (value_agrees tracked name) ?_
    rintro id b _ - ⟨rfl, rfl⟩
    refine ⟨rfl, ?_⟩
    simp [Symbol.forgetScope]
  | .binary op lhs rhs span _, b, env, tracked => by
    rw [Resolve.resolveExpr, expr]
    refine Agrees.bind (expr_agrees lhs tracked) ?_
    rintro lhs' b₁ _ ran rfl
    refine Agrees.bind (expr_agrees rhs (tracked.keep (Restores.resolveExpr _ _ _ _ ran))) ?_
    rintro rhs' b₂ _ - rfl
    cases Resolve.resultType? op lhs'.ty rhs'.ty with
    | none => exact rfl
    | some ty => exact ⟨rfl, rfl⟩
  | .range first limit step span _, b, env, tracked => by
    rw [Resolve.resolveExpr, expr]
    refine Agrees.bind (expr_agrees first tracked) ?_
    rintro first' b₁ _ ran rfl
    have tracked₁ := tracked.keep (Restores.resolveExpr _ _ _ _ ran)
    refine Agrees.bind Agrees.require ?_
    rintro _ b₁ _ - rfl
    refine Agrees.bind (expr_agrees limit tracked₁) ?_
    rintro limit' b₂ _ ran rfl
    have tracked₂ := tracked₁.keep (Restores.resolveExpr _ _ _ _ ran)
    refine Agrees.bind Agrees.require ?_
    rintro _ b₂ _ - rfl
    cases step with
    | none => exact ⟨rfl, rfl⟩
    | some step =>
      refine Agrees.bind (expr_agrees step tracked₂) ?_
      rintro step' b₃ _ - rfl
      refine Agrees.bind Agrees.require ?_
      rintro _ b₃ _ - rfl
      exact ⟨rfl, rfl⟩
  | .call name args _ span _, b, env, tracked => by
    rw [Resolve.resolveExpr, expr]
    refine Agrees.bind (role_agrees tracked name "function") ?_
    rintro id b _ - ⟨rfl, rfl⟩
    refine Agrees.get ?_
    simp only [Symbols.get_forgetScopes, Symbol.forgetScope]
    cases (b.symbols.get id).kind with
    | function params returns scope =>
      simp only [SymbolKind.forgetScope, Symbols.expectedArgs_forgetScopes]
      refine Agrees.bind Agrees.require ?_
      rintro _ b _ - rfl
      refine Agrees.bind (exprs_agrees args #[] _ tracked) ?_
      rintro args' b₁ _ - rfl
      exact ⟨rfl, rfl⟩
    | _ => exact rfl
  | .construct name args _ span _, b, env, tracked => by
    rw [Resolve.resolveExpr, expr]
    refine Agrees.bind (role_agrees tracked name "type") ?_
    rintro id b _ - ⟨rfl, rfl⟩
    refine Agrees.get ?_
    rw [Symbols.fields_forgetScopes, Symbols.expectedFields_forgetScopes]
    refine Agrees.bind Agrees.require ?_
    rintro _ b _ - rfl
    refine Agrees.bind (exprs_agrees args #[] _ tracked) ?_
    rintro args' b₁ _ - rfl
    refine ⟨rfl, ?_⟩
    simp [Symbol.forgetScope]
  | .member base field _ span _, b, env, tracked => by
    rw [Resolve.resolveExpr, expr]
    refine Agrees.bind (expr_agrees base tracked) ?_
    rintro base' b₁ _ - rfl
    cases base'.ty with
    | record record name =>
      refine Agrees.get ?_
      simp only [Symbols.fieldNamed_forgetScopes, Symbols.get_forgetScopes]
      cases Resolve.fieldNamed? b₁.symbols record field.text with
      | none => exact rfl
      | some id => exact ⟨rfl, rfl⟩
    | _ => exact rfl
  | .ifElse cond yes no span _, b, env, tracked => by
    rw [Resolve.resolveExpr, expr]
    refine Agrees.bind (expr_agrees cond tracked) ?_
    rintro cond' b₁ _ ran rfl
    have tracked₁ := tracked.keep (Restores.resolveExpr _ _ _ _ ran)
    refine Agrees.bind Agrees.require ?_
    rintro _ b₁ _ - rfl
    refine Agrees.bind (block_agrees yes tracked₁) ?_
    rintro yes' b₂ _ ran rfl
    have tracked₂ := tracked₁.keep (Restores.resolveBlock _ _ _ _ ran)
    refine Agrees.bind (blockValue_agrees yes') ?_
    rintro yesType b₂ _ - ⟨rfl, rfl⟩
    refine Agrees.bind (block_agrees no tracked₂) ?_
    rintro no' b₃ _ - rfl
    refine Agrees.bind (blockValue_agrees no') ?_
    rintro noType b₃ _ - ⟨rfl, rfl⟩
    exact Agrees.guard fun _ => ⟨rfl, rfl⟩
  | .ifOnly .., _, _, _ => rfl
  | .foreach .., _, _, _ => rfl
  | .block body _, b, env, tracked => by
    rw [Resolve.resolveExpr, expr]
    refine Agrees.bind (block_agrees body tracked) ?_
    rintro body' b₁ _ - rfl
    refine Agrees.bind (blockValue_agrees body') ?_
    rintro ty b₁ _ - ⟨rfl, rfl⟩
    exact ⟨rfl, rfl⟩

theorem exprs_agrees : ∀ (args : List PExpr) (done : Array TExpr)
    (expected : List Resolve.Expected) {b : Bindings} {env : Env}, Tracks b env →
    Agrees (fun found _ found' => found = done.toList ++ found')
      (Resolve.resolveArgs done args expected b) (exprs env args expected b.symbols.forgetScopes)
  | [], done, expected, _, _, _ => ⟨rfl, by simp⟩
  | _ :: _, done, [], _, _, _ => ⟨rfl, by simp⟩
  | arg :: rest, done, (ty, mismatch) :: expected, b, env, tracked => by
    rw [Resolve.resolveArgs, exprs]
    refine Agrees.bind (expr_agrees arg tracked) ?_
    rintro arg' b₁ _ ran rfl
    have tracked₁ := tracked.keep (Restores.resolveExpr _ _ _ _ ran)
    refine Agrees.guard fun _ => ?_
    refine Agrees.map (exprs_agrees rest (done.push arg') expected tracked₁) ?_
    rintro found b' found' rfl
    simp

theorem chain_agrees : ∀ (bodies : List PExpr) (name : Ident) (declared : Ty)
    (done : Array TExpr) {b : Bindings} {env : Env}, Tracks b env →
    Agrees (fun found _ found' => found = done.toList ++ found')
      (Resolve.resolveChain name declared done bodies b)
      (chain env name declared bodies b.symbols.forgetScopes)
  | [], name, declared, done, _, _, _ => ⟨rfl, by simp⟩
  | body :: rest, name, declared, done, b, env, tracked => by
    have followed (body : TExpr) {b : Bindings} (tracked : Tracks b env) :
        Agrees (fun found _ found' => found = done.toList ++ found')
          ((do
            Resolve.checkLetBody name declared body
            Resolve.resolveChain name declared (done.push body) rest : Resolve (List TExpr)) b)
          ((do
            isLetBody name declared body
            let bodies ← chain env name declared rest
            return body :: bodies : Check (List TExpr)) b.symbols.forgetScopes) := by
      refine Agrees.bind Agrees.require ?_
      rintro _ b _ - rfl
      refine Agrees.map (chain_agrees rest name declared (done.push body) tracked) ?_
      rintro found b' found' rfl
      simp
    have agreed := expr_agrees body tracked
    have plain : Agrees (fun found _ found' => found = done.toList ++ found')
        ((do
          let body ← Resolve.resolveExpr body
          Resolve.checkLetBody name declared body
          Resolve.resolveChain name declared (done.push body) rest : Resolve (List TExpr)) b)
        ((do
          let body ← expr env body
          isLetBody name declared body
          let bodies ← chain env name declared rest
          return body :: bodies : Check (List TExpr)) b.symbols.forgetScopes) := by
      refine Agrees.bind agreed ?_
      rintro body' b₁ _ ran rfl
      exact followed body' (tracked.keep (Restores.resolveExpr _ _ _ _ ran))
    cases body with
    | ifOnly cond yes span ty =>
      rw [Resolve.resolveChain, chain]
      refine Agrees.bind (expr_agrees cond tracked) ?_
      rintro cond' b₁ _ ran rfl
      have tracked₁ := tracked.keep (Restores.resolveExpr _ _ _ _ ran)
      refine Agrees.bind Agrees.require ?_
      rintro _ b₁ _ - rfl
      refine Agrees.bind (block_agrees yes tracked₁) ?_
      rintro yes' b₂ _ ran rfl
      have tracked₂ := tracked₁.keep (Restores.resolveBlock _ _ _ _ ran)
      refine Agrees.bind (blockValue_agrees yes') ?_
      rintro yesType b₂ _ - ⟨rfl, rfl⟩
      exact followed _ tracked₂
    | «foreach» element elementType source body sym span ty =>
      rw [Resolve.resolveChain, chain]
      refine Agrees.bind (resolveType_agrees tracked elementType) ?_
      rintro elementTy b _ - ⟨rfl, rfl⟩
      refine Agrees.bind (expr_agrees source tracked) ?_
      rintro source' b₁ _ ran rfl
      have tracked₁ := tracked.keep (Restores.resolveExpr _ _ _ _ ran)
      refine Agrees.bind (isSource_agrees source' elementType elementTy) ?_
      rintro _ b₁ _ - rfl
      rw [modifyScopes_bind]
      refine Agrees.bind (addLocal_agrees tracked₁.push element elementTy) ?_
      rintro id b₂ ⟨inside, _⟩ ranLocal ⟨rfl, tracked₂⟩
      have kept := Restores.declareLocal _ _ _ _ _ ranLocal
      refine Agrees.bind (block_agrees body tracked₂) ?_
      rintro body' b₃ _ ranBody rfl
      have kept := kept.trans ((Restores.resolveBlock _ _ _ _ ranBody).weaken.lower
        kept.moreSymbols kept.moreScopes)
      rw [modifyScopes_bind]
      refine Agrees.bind (blockValue_agrees body') ?_
      rintro bodyType b₄ _ - ⟨rfl, rfl⟩
      exact followed _ (tracked₁.leave kept)
    | _ => exact plain

theorem block_agrees : ∀ (body : Block .parsed) {b : Bindings} {env : Env}, Tracks b env →
    Agrees Equal (Resolve.resolveBlock body b) (block env body b.symbols.forgetScopes)
  | ⟨stmts, span, _⟩, b, env, tracked => by
    rw [Resolve.resolveBlock, block, modifyScopes_bind]
    refine Agrees.bind (hoist_agrees tracked.push stmts) ?_
    rintro ids b₁ ⟨inside, _⟩ - ⟨rfl, tracked₁, hoisted⟩
    refine Agrees.bind (stmts_agrees stmts #[] ids tracked₁ hoisted) ?_
    rintro stmts' b₂ _ - rfl
    exact ⟨rfl, by simp [Equal]⟩

theorem stmts_agrees : ∀ (stmts : List PStmt) (done : Array TStmt)
    (ids : List (Option SymbolId)) {b : Bindings} {env : Env}, Tracks b env →
    AllHoisted b stmts ids →
    Agrees (fun found _ found' => found = done.toList ++ found')
      (Resolve.resolveStmts done stmts ids b) (checkStmts env stmts ids b.symbols.forgetScopes)
  | [], done, ids, _, _, _, _ => ⟨rfl, by simp⟩
  | first :: rest, done, ids, b, env, tracked, hoisted => by
    rw [Resolve.resolveStmts, checkStmts]
    refine Agrees.bind (stmt_agrees first (ids.head?.join.getD 0) tracked hoisted.1) ?_
    rintro stmt b₁ ⟨_, env₁⟩ ran ⟨rfl, tracked₁⟩
    have hoisted₁ := hoisted.2.keep _ _ (Restores.resolveStmt _ _ _ _ _ ran)
    refine Agrees.map (stmts_agrees rest (done.push stmt) ids.tail tracked₁ hoisted₁) ?_
    rintro found b' found' rfl
    simp

theorem stmt_agrees : ∀ (stmt : PStmt) (id : SymbolId) {b : Bindings} {env : Env},
    Tracks b env → StmtHoisted b id stmt →
    Agrees (fun found b' p => found = p.1 ∧ Tracks b' p.2)
      (Resolve.resolveStmt id stmt b) (checkStmt env id stmt b.symbols.forgetScopes)
  | .letIn name type first chained span _, id, b, env, tracked, _ => by
    rw [Resolve.resolveStmt, checkStmt]
    refine Agrees.bind (resolveType_agrees tracked type) ?_
    rintro declared b _ - ⟨rfl, rfl⟩
    rw [modifyScopes_bind]
    refine Agrees.bind (expr_agrees first tracked.push) ?_
    rintro first' b₁ _ ran rfl
    have tracked₁ := tracked.leave (Restores.resolveExpr _ _ _ _ ran).weaken
    rw [modifyScopes_bind]
    refine Agrees.bind Agrees.require ?_
    rintro _ b₂ _ - rfl
    refine Agrees.bind (addLocal_agrees tracked₁ name declared) ?_
    rintro sym b₃ ⟨env₃, _⟩ - ⟨rfl, tracked₃⟩
    refine Agrees.bind (chain_agrees chained name declared #[] tracked₃) ?_
    rintro chained' b₄ _ ran rfl
    exact ⟨rfl, by simp, tracked₃.keep (Restores.resolveChain _ _ _ _ _ _ _ ran)⟩
  | .func name params returns body span _, id, b, env, tracked, hoisted => by
    obtain ⟨symbol, ids, returnType, scope, here, found, kind, inside, isHere, parent,
      mirrored⟩ := hoisted
    have isFunction : (b.symbols.get id).kind = .function ids returnType scope := by
      simp [Symbols.get, found, kind]
    rw [Resolve.resolveStmt, checkStmt]
    refine Agrees.bind (symbol_agrees id) ?_
    rintro _ b _ - ⟨rfl, rfl, rfl⟩
    simp only [Symbols.get_forgetScopes, Symbol.forgetScope, isFunction,
      SymbolKind.forgetScope]
    have entered : Tracks ⟨b.symbols, b.scopes.enter scope, some id⟩ (env.body params ids id) :=
      ⟨Chain.child isHere parent inside mirrored tracked.chain, rfl⟩
    rw [inFunction_bind]
    refine Agrees.bind (block_agrees body entered) ?_
    rintro body' b₁ _ ran rfl
    have kept := Restores.resolveBlock _ _ _ _ ran
    refine Agrees.bind (blockValue_agrees body') ?_
    rintro bodyType b₂ _ - ⟨rfl, rfl⟩
    refine Agrees.guard fun _ => ⟨rfl, rfl, ?_, tracked.owner⟩
    refine tracked.chain.congr fun other before => ?_
    exact kept.scope other (Nat.lt_of_le_of_lt before tracked.chain.bound) (by simp)
  | .record name fields span _, id, b, env, tracked, _ => by
    rw [Resolve.resolveStmt, checkStmt]
    refine Agrees.get ?_
    rw [Symbols.fields_forgetScopes]
    exact ⟨rfl, rfl, tracked⟩
  | .expr value, id, b, env, tracked, _ => by
    rw [Resolve.resolveStmt, checkStmt]
    refine Agrees.bind (expr_agrees value tracked) ?_
    rintro value' b₁ _ ran rfl
    exact ⟨rfl, rfl, tracked.keep (Restores.resolveExpr _ _ _ _ ran)⟩

end

theorem builtins_tracked (builtins : List (Option String × Ty)) (scopes : Scopes)
    (types : List (String × Ty)) (chain : Chain scopes.scopes scopes.current [⟨[], types⟩]) :
    ∃ done, builtins.foldl (fun scopes (name?, ty) =>
        match name? with
        | some name => (scopes.declareType? name ty).getD scopes
        | none => scopes) scopes = done ∧
      Chain done.scopes done.current
        [⟨[], types ++ builtins.filterMap fun (name?, ty) => name?.map (·, ty)⟩] := by
  induction builtins generalizing scopes types with
  | nil => exact ⟨scopes, rfl, by simpa using chain⟩
  | cons builtin rest ih =>
    obtain ⟨name?, ty⟩ := builtin
    cases name? with
    | none => exact ih scopes types chain
    | some name =>
      have extended : Chain ((scopes.declareType? name ty).getD scopes).scopes
          ((scopes.declareType? name ty).getD scopes).current [⟨[], types ++ [(name, ty)]⟩] := by
        obtain ⟨scope, found, mirrored⟩ := chain.head
        have own : scopes.ownType? name = types.lookup name := by
          rw [← mirrored.types]
          simp [Scopes.ownType?, found]
        rw [Scopes.declareType?, own]
        cases absent : types.lookup name with
        | some previous => exact chain.congrHead fun scope mirrored => mirrored.again absent
        | none =>
          refine chain.modify
            (fun scope => { scope with types := scope.types.insert name ty })
            (fun _ => rfl) ?_
          intro scope' found'
          cases found.symm.trans found'
          exact mirrored.addType _ _ absent
      obtain ⟨done, ran, tracked⟩ := ih _ _ extended
      exact ⟨done, ran, by simpa using tracked⟩

theorem builtin_tracked (names : NameTable) :
    Tracks ⟨#[], Resolve.builtinScopes names, none⟩ (Env.builtin names) := by
  have initial : Chain Scopes.initial.scopes Scopes.initial.current [⟨[], []⟩] :=
    Chain.root rfl rfl (Layer.mirrors_empty none)
  obtain ⟨done, ran, chain⟩ := builtins_tracked [(names.numberName?, Ty.number),
    (names.stringName?, .string), (names.booleanName?, .boolean), (names.seqName?, .seq)]
    Scopes.initial [] initial
  refine ⟨?_, rfl⟩
  change Chain (Resolve.builtinScopes names).scopes (Resolve.builtinScopes names).current _
  rw [show Resolve.builtinScopes names = done from ran]
  exact chain

end Lexical

theorem Lexical.Agrees.resolved {resolved : Except CompileError (List (Stmt .typed) × Bindings)}
    {checked : Except CompileError (List (Stmt .typed) × Symbols)}
    (agreed : Agrees (fun found _ found' => found = found') resolved checked) :
    (resolved >>= fun p => pure (Resolved.mk ⟨p.1⟩ p.2.symbols)).map Resolved.forgetScopes =
      checked >>= fun p => pure (Resolved.mk ⟨p.1⟩ p.2) := by
  cases resolved with
  | error error =>
    cases checked with
    | error error' => exact congrArg Except.error agreed
    | ok p => exact agreed.elim
  | ok p =>
    cases checked with
    | error error' => exact agreed.elim
    | ok p' =>
      obtain ⟨stmts, symbols⟩ := p'
      obtain ⟨rfl, rfl⟩ := agreed
      rfl

theorem Module.forgetScopes_resolve (m : Module .parsed) (names : NameTable) :
    (m.resolve names).map Resolved.forgetScopes = m.check names := by
  have hoisting := Lexical.hoist_agrees (Lexical.builtin_tracked names) m.stmts
  rw [Symbols.empty_forgetScopes] at hoisting
  refine Lexical.Agrees.resolved (Lexical.Agrees.bind hoisting ?_)
  rintro ids b ⟨env, _⟩ - ⟨rfl, tracked, hoisted⟩
  refine Lexical.Agrees.mono (Lexical.stmts_agrees m.stmts #[] ids tracked hoisted) ?_
  rintro found b' found' - rfl
  simp

end LetChain
