import LetChain.Proofs.Typing.Tables

/-! Every tree that passes the check is the tree that was given, with decorations that fit. The
induction follows the check; it carries that the table of symbols is sound and that the nodes made so
far declare exactly the symbols made so far. -/

namespace LetChain

open Stateful (bind_eq_ok lift_eq_ok)

/-! ### Nodes of parts -/

section Members

variable {globals : Globals} {owner : Option SymbolId}

theorem Expr.mem_nodes (e : Expr .typed) : ⟨owner, .expr e⟩ ∈ e.nodes owner := by
  cases e with
  | range first limit step span ty => cases step <;> simp [Expr.nodes]
  | _ => simp [Expr.nodes]

theorem Stmt.nodes_subset {stmt : Stmt .typed} {stmts : List (Stmt .typed)} (member : stmt ∈ stmts) :
    stmt.nodes owner ⊆ Stmt.allNodes owner stmts := by
  induction stmts with
  | nil => cases member
  | cons first rest ih =>
    intro node found
    rw [Stmt.allNodes, List.mem_append]
    rcases List.mem_cons.mp member with rfl | later
    · exact Or.inl found
    · exact Or.inr (ih later found)

theorem Expr.ofValues {e : Expr .typed} (owner : Option SymbolId)
    (decorated : ∀ node ∈ e.nodes owner, node.Decorated globals) : e.ty.OfValues globals.symbol :=
  (decorated _ e.mem_nodes).2

theorem Resolve.lastType?_eq_some {stmts : List (Stmt .typed)} {ty : Ty} :
    Resolve.lastType? stmts = some ty ↔
      ∃ value, stmts.getLast? = some (.expr value) ∧ value.ty = ty := by
  unfold Resolve.lastType?
  split
  · rename_i value last
    simp [last]
  · rename_i other
    simp only [reduceCtorEq, false_iff, not_exists, not_and]
    intro value last
    exact absurd last (other value)

theorem Block.ofValues {body : Block .typed} {ty : Ty} (owner : Option SymbolId)
    (typed : body.ty = some ty)
    (decorated : ∀ node ∈ body.nodes owner, node.Decorated globals) :
    ty.OfValues globals.symbol := by
  obtain ⟨stmts, span, blockTy⟩ := body
  exact (decorated _ (List.mem_cons_self ..)).2 ty typed

end Members

theorem Operator.Typing.ofValues {symbol : SymbolId → Symbol} {op : Operator} {lhs rhs ty : Ty}
    (rule : op.Typing lhs rhs ty) : ty.OfValues symbol := by
  cases rule with
  | arithmetic => exact .number
  | order | logic | equality => exact .boolean
  | concat => exact .string

namespace Lexical

open Resolve (PExpr PStmt TExpr TStmt Expected)

theorem Sound.variable {s : Symbols} {id : SymbolId} (sound : Sound s) (bound : id < s.size)
    (kind : (∃ index, (s.get id).kind = .param index) ∨ (s.get id).kind = .localVar) :
    (∃ function, (s.get id).owner = some function ∧ (s.get function).kind.role = "function") ∧
      (s.get id).ty.OfValues s.get := by
  have own := sound.symbols id bound
  unfold Symbol.Sound at own
  rcases kind with ⟨index, kind⟩ | kind
  · rw [kind] at own
    exact own
  · rw [kind] at own
    exact own

theorem Finishes.ofValues {globals : Globals} {s : Symbols} {ty : Ty}
    (finishes : Finishes globals s) (ofValues : ty.OfValues s.get) :
    ty.OfValues globals.symbol := by
  refine ofValues.mono fun id role => ?_
  obtain ⟨bound, -⟩ := (Stays.refl s).keeps role (by decide)
  obtain ⟨fields, kind⟩ := SymbolKind.role_eq_type.mp role
  rw [finishes id bound]
  simp [Symbol.forgetScope, kind, SymbolKind.forgetScope, SymbolKind.role]

theorem addLocal_sound {env env' : Env} {s s' : Symbols} {ident : Ident} {ty : Ty} {sym : SymbolId}
    (ran : addLocal env ident ty s = .ok ((env', sym), s')) (sound : Sound s) (fits : Fits s env)
    (inside : env.owner.isSome) (typed : ty.OfValues s.get) : Sound s' ∧ Fits s' env' := by
  have grown := Grows.addLocal _ _ _ _ _ _ ran
  have stays := Stays.ofGrown grown
  obtain ⟨owner, isOwner⟩ := Option.isSome_iff_exists.mp inside
  have role := (stays.keeps (fits.owner owner isOwner) (by decide)).2.1
  unfold addLocal at ran
  obtain ⟨_, _, added, ran⟩ := bind_eq_ok.mp ran
  obtain ⟨_, _, named, ran⟩ := bind_eq_ok.mp ran
  cases ran
  cases added
  obtain ⟨declared, rfl⟩ := lift_eq_ok.mp named
  refine ⟨sound.push grown ⟨⟨owner, isOwner, role⟩, stays.ofValues typed⟩, ?_⟩
  refine (fits.stays stays).declare declared (by simp) ?_
  rw [Symbols.get_push, if_pos rfl]

/-! ### Parts of a tree -/

/-- What a check made of a part of a tree: nodes that declare the new symbols, besides those that were
given to them before. -/
structure Decorates (given : List SymbolId) (s s' : Symbols) (nodes : List Node) : Prop where
  sound : Sound s'
  fresh : ∃ new, Fresh s.size s'.size new ∧ (nodes.flatMap Node.declares).Perm (given ++ new)
  decorated : ∀ globals, Finishes globals s' → ∀ node ∈ nodes, node.Decorated globals

namespace Decorates

variable {given given' : List SymbolId} {s s₁ s₂ s₃ : Symbols} {nodes nodes' : List Node} {node : Node}

theorem nil (sound : Sound s) : Decorates [] s s [] :=
  ⟨sound, ⟨[], Fresh.nil _, List.Perm.nil⟩, nofun⟩

theorem append (left : Decorates given s s₁ nodes) (right : Decorates given' s₁ s₂ nodes')
    (grown : Grown s s₁) (grown' : Grown s₁ s₂) :
    Decorates (given ++ given') s s₂ (nodes ++ nodes') := by
  obtain ⟨new, fresh, perm⟩ := left.fresh
  obtain ⟨new', fresh', perm'⟩ := right.fresh
  refine ⟨right.sound, ⟨new ++ new', fresh.append fresh' grown.ext.more grown'.ext.more, ?_⟩, ?_⟩
  · rw [List.flatMap_append]
    refine (perm.append perm').trans ?_
    simp only [List.append_assoc]
    exact List.Perm.append_left _ (List.perm_append_comm_assoc _ _ _)
  · intro globals finishes node member
    rcases List.mem_append.mp member with first | second
    · exact left.decorated globals (finishes.before grown'.ext) node first
    · exact right.decorated globals finishes node second

theorem cons (inside : Decorates [] s s₁ nodes) (declares : node.declares = given)
    (decorated : ∀ globals, Finishes globals s₁ → (∀ node ∈ nodes, node.Decorated globals) →
      node.Decorated globals) : Decorates given s s₁ (node :: nodes) := by
  obtain ⟨new, fresh, perm⟩ := inside.fresh
  refine ⟨inside.sound, ⟨new, fresh, ?_⟩, fun globals finishes other member => ?_⟩
  · rw [List.flatMap_cons, declares]
    exact perm.append_left given
  · have below := inside.decorated globals finishes
    rcases List.mem_cons.mp member with rfl | there
    · exact decorated globals finishes below
    · exact below other there

theorem leaf (sound : Sound s) (declares : node.declares = given)
    (decorated : ∀ globals, Finishes globals s → node.Decorated globals) :
    Decorates given s s [node] :=
  (nil sound).cons declares fun globals finishes _ => decorated globals finishes

theorem addLocal {env env' : Env} {ident : Ident} {ty : Ty} {sym : SymbolId}
    (first : Decorates [] s s₁ nodes)
    (ran : Lexical.addLocal env ident ty s₁ = .ok ((env', sym), s₂))
    (next : Decorates [] s₂ s₃ nodes') (grown : Grown s s₁) (grown' : Grown s₂ s₃)
    (inside : env.owner.isSome) (declares : node.declares = [sym])
    (decorated : ∀ globals, (∀ node ∈ nodes, node.Decorated globals) →
      (∀ node ∈ nodes', node.Decorated globals) → globals.IsLocal env.owner sym ident.text →
      (globals.symbol sym).ty = ty → node.Decorated globals) :
    Decorates [] s s₃ (node :: (nodes ++ nodes')) := by
  have added := Grows.addLocal _ _ _ _ _ _ ran
  obtain ⟨symEq, s₂Eq, -⟩ := addLocal_spec ran
  have single : Fresh s₁.size s₂.size [sym] := by
    rw [s₂Eq, symEq, Array.size_push]
    exact Fresh.single _
  obtain ⟨new, fresh, perm⟩ := first.fresh
  obtain ⟨new', fresh', perm'⟩ := next.fresh
  refine ⟨next.sound, ⟨new ++ ([sym] ++ new'), ?_, ?_⟩, ?_⟩
  · exact fresh.append (single.append fresh' added.ext.more grown'.ext.more) grown.ext.more
      (Nat.le_trans added.ext.more grown'.ext.more)
  · rw [List.flatMap_cons, List.flatMap_append, declares]
    refine ((perm.append perm').cons sym).trans ?_
    exact List.perm_middle.symm
  · intro globals finishes other member
    have before := finishes.before grown'.ext
    have found : globals.symbol sym = ⟨ident.text, ty, .localVar, ident.span, env.owner⟩ := by
      rw [before sym (by rw [s₂Eq, symEq]; simp), s₂Eq, symEq, Symbols.get_push, if_pos rfl]
      rfl
    have left := first.decorated globals (before.before added.ext)
    have right := next.decorated globals finishes
    rcases List.mem_cons.mp member with rfl | below
    · obtain ⟨owner, isOwner⟩ := Option.isSome_iff_exists.mp inside
      exact decorated globals left right ⟨by rw [found], by rw [found], owner, isOwner,
        by rw [found]; exact isOwner⟩ (by rw [found])
    · rcases List.mem_append.mp below with here | there
      · exact left other here
      · exact right other there

end Decorates

/-! ### Statements that were hoisted -/

theorem hoistedSymbols_grown {s s' : Symbols} {pairs : List (PStmt × Option SymbolId)}
    (hoisted : ∀ pair ∈ pairs, HasSymbol s pair.1 pair.2) (extended : Extends s.size s s') :
    hoistedSymbols s' pairs = hoistedSymbols s pairs := by
  rw [hoistedSymbols, hoistedSymbols, List.flatMap, List.flatMap,
    List.map_congr_left fun pair listed => ?_]
  obtain ⟨stmt, id?⟩ := pair
  have has := (hoisted _ listed).given
  cases stmt with
  | func => rw [ownSymbols, ownSymbols, extended.members has.func.1]
  | record => rw [ownSymbols, ownSymbols, extended.members has.record.1]
  | letIn | expr => rfl

theorem erase_bindAll {declared : List (Binding .parsed)} {ids : List SymbolId}
    (length : ids.length = declared.length) :
    (Resolve.bindAll declared ids).map Binding.erase = declared ∧
      (Resolve.bindAll declared ids).map Binding.sym = ids := by
  induction declared generalizing ids with
  | nil =>
    cases ids with
    | nil => exact ⟨rfl, rfl⟩
    | cons id ids => simp at length
  | cons first rest ih =>
    cases ids with
    | nil => simp at length
    | cons id ids =>
      obtain ⟨erased, syms⟩ := ih (by simpa using length)
      exact ⟨congrArg (first :: ·) erased, congrArg (id :: ·) syms⟩

theorem name_of_mem_bindAll {declared : List (Binding .parsed)} {ids : List SymbolId}
    {name : SymbolId → String} (names : ids.map name = declared.map (·.name.text))
    {binding : Binding .typed} (member : binding ∈ Resolve.bindAll declared ids) :
    binding.sym ∈ ids ∧ name binding.sym = binding.name.text := by
  induction declared generalizing ids with
  | nil => cases member
  | cons first rest ih =>
    cases ids with
    | nil => cases member
    | cons id ids =>
      obtain ⟨same, others⟩ := List.cons.inj names
      rcases List.mem_cons.mp member with rfl | later
      · exact ⟨List.mem_cons_self, same⟩
      · obtain ⟨listed, named⟩ := ih others later
        exact ⟨List.mem_cons_of_mem _ listed, named⟩

theorem Fits.body {s : Symbols} {env : Env} {declared : List (Binding .parsed)}
    {ids : List SymbolId} {id : SymbolId} (fits : Fits s env)
    (role : (s.get id).kind.role = "function") (bounds : ∀ param ∈ ids, param < s.size)
    (names : ids.map (fun param => (s.get param).name) = declared.map (·.name.text)) :
    Fits s (env.body declared ids id) := by
  refine ⟨fun layer member entry listed => ?_, fun layer member entry listed => ?_, ?_⟩
  · rcases List.mem_cons.mp member with rfl | outer
    · change entry ∈ (declared.map (·.name.text)).zip ids at listed
      rw [List.zip_map_left] at listed
      obtain ⟨⟨binding, param⟩, paired, rfl⟩ := List.mem_map.mp listed
      obtain ⟨own, named⟩ := name_of_mem_bindAll names (List.mem_map_of_mem paired)
      exact ⟨bounds _ own, named⟩
    · exact fits.names layer outer entry listed
  · rcases List.mem_cons.mp member with rfl | outer
    · cases listed
    · exact fits.types layer outer entry listed
  · intro function isOwner
    cases isOwner
    exact role

theorem stmts_hoisted {env inner : Env} {s s₁ s₂ : Symbols} {stmts : List PStmt}
    {ids : List (Option SymbolId)} {stmts' : List TStmt}
    (ranHoist : hoist env stmts s = .ok ((inner, ids), s₁))
    (ranStmts : checkStmts inner stmts ids s₁ = .ok (stmts', s₂)) (sound : Sound s)
    (fits : Fits s env) (inside : env.owner.isSome ∨ ∀ stmt ∈ stmts, stmt.IsDeclaration)
    (checked : Sound s₁ → Fits s₁ inner →
      (inner.owner.isSome ∨ ∀ stmt ∈ stmts, stmt.IsDeclaration) →
      (∀ pair ∈ stmts.zip ids, HasSymbol s₁ pair.1 pair.2) → ids.length = stmts.length →
      Stmt.eraseAll stmts' = stmts ∧
        Decorates (hoistedSymbols s₁ (stmts.zip ids)) s₁ s₂ (Stmt.allNodes inner.owner stmts')) :
    Stmt.eraseAll stmts' = stmts ∧ Decorates [] s s₂ (Stmt.allNodes env.owner stmts') := by
  have hoisted := hoist_spec ranHoist
  have grown := Grows.hoist _ _ _ _ _ ranHoist
  have grown' := Grows.checkStmts _ _ _ _ _ _ ranStmts
  obtain ⟨sound₁, fits₁⟩ := hoist_sound ranHoist sound fits
  have sameOwner : inner.owner = env.owner := hoisted.named.owner
  obtain ⟨erased, decorates⟩ := checked sound₁ fits₁ (by rw [sameOwner]; exact inside)
    (fun _ => hoisted.has) hoisted.length
  rw [sameOwner] at decorates
  obtain ⟨new, freshStmts, perm⟩ := decorates.fresh
  exact ⟨erased, decorates.sound,
    ⟨_, hoisted.fresh.append freshStmts grown.ext.more grown'.ext.more, perm⟩, decorates.decorated⟩

/-! ### Forms

Each form of the tree is decorated if its parts are. -/

abbrev ExprDecorates (e : PExpr) : Prop :=
  ∀ ⦃env s s' e'⦄, expr env e s = .ok (e', s') → Sound s → Fits s env → env.owner.isSome →
    e'.erase = e ∧ Decorates [] s s' (e'.nodes env.owner)

abbrev ExprsDecorate (args : List PExpr) : Prop :=
  ∀ ⦃expected env s s' args'⦄, exprs env args expected s = .ok (args', s') →
    args.length = expected.length → Sound s → Fits s env → env.owner.isSome →
    Expr.eraseAll args' = args ∧ Decorates [] s s' (Expr.allNodes env.owner args')

abbrev ChainDecorates (bodies : List PExpr) : Prop :=
  ∀ ⦃name declared env s s' bodies'⦄, chain env name declared bodies s = .ok (bodies', s') →
    Sound s → Fits s env → env.owner.isSome →
    Expr.eraseAll bodies' = bodies ∧ (∀ body ∈ bodies', body.ty = declared) ∧
      Decorates [] s s' (Expr.allNodes env.owner bodies')

abbrev BlockDecorates (body : Block .parsed) : Prop :=
  ∀ ⦃env s s' ty body'⦄, block env body s = .ok (body', s') → body'.ty = some ty →
    Sound s → Fits s env → env.owner.isSome →
    body'.erase = body ∧ Decorates [] s s' (body'.nodes env.owner)

abbrev StmtsDecorate (stmts : List PStmt) : Prop :=
  ∀ ⦃ids env s s' stmts'⦄, checkStmts env stmts ids s = .ok (stmts', s') →
    Sound s → Fits s env → (env.owner.isSome ∨ ∀ stmt ∈ stmts, stmt.IsDeclaration) →
    (∀ pair ∈ stmts.zip ids, HasSymbol s pair.1 pair.2) → ids.length = stmts.length →
    Stmt.eraseAll stmts' = stmts ∧
      Decorates (hoistedSymbols s (stmts.zip ids)) s s' (Stmt.allNodes env.owner stmts')

abbrev StmtDecorates (stmt : PStmt) : Prop :=
  ∀ ⦃id env env' s s' stmt'⦄, checkStmt env id stmt s = .ok ((stmt', env'), s') →
    Sound s → Fits s env → (env.owner.isSome ∨ stmt.IsDeclaration) → HasSymbol s stmt (some id) →
    stmt'.erase = stmt ∧ Fits s' env' ∧ env'.owner = env.owner ∧
      Decorates (ownSymbols s id stmt) s s' (stmt'.nodes env.owner)

section Forms

variable {name : Ident} {args rest : List PExpr} {span : Span}

theorem named_decorates {sym} {ty} : ExprDecorates (.named name sym span ty) := by
  intro env s s' e' ran sound fits _
  rw [expr] at ran
  obtain ⟨id, s₁, ranValue, ran⟩ := bind_eq_ok.mp ran
  obtain ⟨_, _, got, ran⟩ := bind_eq_ok.mp ran
  cases ran
  cases got
  obtain ⟨rfl, found, kind, free⟩ := value_spec ranValue
  obtain ⟨bound, named⟩ := fits.symbol? found
  obtain ⟨⟨function, owned, -⟩, typed⟩ := sound.variable bound kind
  have isOwner : env.owner = some function := by rw [← owned, free (by simp [owned])]
  refine ⟨rfl, Decorates.leaf sound rfl fun globals finishes => ?_⟩
  have final := finishes id bound
  refine ⟨⟨⟨by rw [final]; exact named, ?_, function, isOwner, by rw [final]; exact owned⟩,
    by rw [final]; rfl⟩, finishes.ofValues typed⟩
  rw [final]
  rcases kind with ⟨index, kind⟩ | kind
  · exact Or.inr ⟨index, by rw [Symbol.forgetScope, kind]; rfl⟩
  · exact Or.inl (by rw [Symbol.forgetScope, kind]; rfl)

theorem binary_decorates {op : Operator} {lhs rhs : PExpr} {ty} (isLeft : ExprDecorates lhs)
    (isRight : ExprDecorates rhs) : ExprDecorates (.binary op lhs rhs span ty) := by
  intro env s s' e' ran sound fits inside
  rw [expr] at ran
  obtain ⟨lhs', s₁, ranLeft, ran⟩ := bind_eq_ok.mp ran
  obtain ⟨rhs', s₂, ranRight, ran⟩ := bind_eq_ok.mp ran
  have grown := Grows.expr _ _ _ _ _ ranLeft
  obtain ⟨erasedLeft, left⟩ := isLeft ranLeft sound fits inside
  obtain ⟨erasedRight, right⟩ := isRight ranRight left.sound
    (fits.stays (.ofGrown grown)) inside
  cases result : Resolve.resultType? op lhs'.ty rhs'.ty with
  | none =>
    rw [result] at ran
    cases ran
  | some ty =>
    rw [result] at ran
    cases ran
    have rule := Resolve.resultType?_eq_some.mp result
    refine ⟨by rw [Expr.erase, erasedLeft, erasedRight], ?_⟩
    refine (left.append right grown (Grows.expr _ _ _ _ _ ranRight)).cons rfl
      fun globals _ _ => ⟨rule, rule.ofValues⟩

theorem range_decorates {first limit : PExpr} {step : Option PExpr} {ty}
    (isFirst : ExprDecorates first) (isLimit : ExprDecorates limit)
    (isStep : ∀ other ∈ step, ExprDecorates other) :
    ExprDecorates (.range first limit step span ty) := by
  intro env s s' e' ran sound fits inside
  rw [expr] at ran
  obtain ⟨first', s₁, ranFirst, ran⟩ := bind_eq_ok.mp ran
  obtain ⟨_, _, firstIs, ran⟩ := bind_eq_ok.mp ran
  obtain ⟨limit', s₂, ranLimit, ran⟩ := bind_eq_ok.mp ran
  obtain ⟨_, _, limitIs, ran⟩ := bind_eq_ok.mp ran
  obtain ⟨firstNumber, rfl⟩ := require_eq_ok.mp firstIs
  obtain ⟨limitNumber, rfl⟩ := require_eq_ok.mp limitIs
  have grown := Grows.expr _ _ _ _ _ ranFirst
  have grown' := Grows.expr _ _ _ _ _ ranLimit
  obtain ⟨erasedFirst, left⟩ := isFirst ranFirst sound fits inside
  have fits₁ := fits.stays (.ofGrown grown)
  obtain ⟨erasedLimit, right⟩ := isLimit ranLimit left.sound fits₁ inside
  have bounds := left.append right grown grown'
  cases step with
  | none =>
    cases ran
    refine ⟨by rw [Expr.erase, erasedFirst, erasedLimit], bounds.cons rfl fun _ _ _ => ?_⟩
    exact ⟨⟨firstNumber, limitNumber, nofun, rfl⟩, .seqOf .number⟩
  | some step =>
    obtain ⟨step', s₃, ranStep, ran⟩ := bind_eq_ok.mp ran
    obtain ⟨_, _, stepIs, ran⟩ := bind_eq_ok.mp ran
    cases ran
    obtain ⟨stepNumber, rfl⟩ := require_eq_ok.mp stepIs
    obtain ⟨erasedStep, third⟩ := isStep step rfl ranStep right.sound
      (fits₁.stays (.ofGrown grown')) inside
    have all := bounds.append third (grown.trans grown') (Grows.expr _ _ _ _ _ ranStep)
    refine ⟨by rw [Expr.erase, erasedFirst, erasedLimit, erasedStep],
      all.cons rfl fun _ _ _ => ?_⟩
    exact ⟨⟨firstNumber, limitNumber, by simpa using stepNumber, rfl⟩, .seqOf .number⟩

theorem call_decorates {sym} {ty} (areArgs : ExprsDecorate args) :
    ExprDecorates (.call name args sym span ty) := by
  intro env s s' e' ran sound fits inside
  rw [expr] at ran
  obtain ⟨id, s₁, ranRole, ran⟩ := bind_eq_ok.mp ran
  obtain ⟨rfl, found, role⟩ := role_spec ranRole
  obtain ⟨params, returns, scope, kind⟩ := SymbolKind.role_eq_function.mp role
  obtain ⟨_, _, got, ran⟩ := bind_eq_ok.mp ran
  cases got
  rw [kind] at ran
  obtain ⟨_, _, arity, ran⟩ := bind_eq_ok.mp ran
  obtain ⟨args', s₂, ranArgs, ran⟩ := bind_eq_ok.mp ran
  cases ran
  obtain ⟨length, rfl⟩ := require_eq_ok.mp arity
  have lengths : args.length = (Resolve.expectedArgs s name.text params).length := by
    simpa [Resolve.expectedArgs] using length
  have types := exprs_types ranArgs lengths
  have grown := Grows.exprs _ _ _ _ _ _ ranArgs
  obtain ⟨bound, named⟩ := fits.symbol? found
  have own := sound.symbols id bound
  unfold Symbol.Sound at own
  rw [kind] at own
  obtain ⟨erased, decorates⟩ := areArgs ranArgs lengths sound fits inside
  refine ⟨by rw [Expr.erase, erased], decorates.cons rfl fun globals finishes _ => ?_⟩
  have before := finishes.before grown.ext
  refine ⟨⟨by rw [before id bound]; exact named, params, before.isFunction bound kind, ?_⟩,
    before.ofValues own.2.2⟩
  rw [types, before.types (sound.kinds.param_bound kind), expectedArgs_types]

theorem construct_decorates {sym} {ty} (areArgs : ExprsDecorate args) :
    ExprDecorates (.construct name args sym span ty) := by
  intro env s s' e' ran sound fits inside
  rw [expr] at ran
  obtain ⟨id, s₁, ranRole, ran⟩ := bind_eq_ok.mp ran
  obtain ⟨rfl, found, role⟩ := role_spec ranRole
  obtain ⟨fields, kind⟩ := SymbolKind.role_eq_type.mp role
  obtain ⟨_, _, got, ran⟩ := bind_eq_ok.mp ran
  cases got
  obtain ⟨_, _, arity, ran⟩ := bind_eq_ok.mp ran
  obtain ⟨args', s₂, ranArgs, ran⟩ := bind_eq_ok.mp ran
  obtain ⟨_, _, got', ran⟩ := bind_eq_ok.mp ran
  cases ran
  cases got'
  obtain ⟨length, rfl⟩ := require_eq_ok.mp arity
  have fieldsEq : s.fields id = fields := by simp [Symbols.fields, Symbol.fields, kind]
  rw [fieldsEq] at ranArgs length
  have lengths : args.length = (Resolve.expectedFields s name.text fields).length := by
    simpa [Resolve.expectedFields] using length
  have types := exprs_types ranArgs lengths
  have grown := Grows.exprs _ _ _ _ _ _ ranArgs
  obtain ⟨bound, named⟩ := fits.symbol? found
  obtain ⟨erased, decorates⟩ := areArgs ranArgs lengths sound fits inside
  refine ⟨by rw [Expr.erase, erased], decorates.cons rfl fun globals finishes _ => ?_⟩
  have before := finishes.before grown.ext
  have isRecord := before.isRecord bound kind
  have nameEq : (globals.symbol id).name = name.text := by
    rw [before id bound]
    exact named
  have typeEq : (s'.get id).ty = .record id name.text := by
    rw [grown.ext.same id bound, (sound.kinds id).record fields kind, named]
  refine ⟨⟨nameEq, typeEq, fields, isRecord, ?_⟩, ?_⟩
  · rw [types, before.types (sound.kinds.field_bound kind)]
    simp [Resolve.expectedFields]
  · change (s'.get id).ty.OfValues globals.symbol
    rw [typeEq]
    exact .record isRecord nameEq

theorem member_decorates {base : PExpr} {field : Ident} {sym} {ty} (isBase : ExprDecorates base) :
    ExprDecorates (.member base field sym span ty) := by
  intro env s s' e' ran sound fits inside
  rw [expr] at ran
  obtain ⟨base', s₁, ranBase, ran⟩ := bind_eq_ok.mp ran
  obtain ⟨erased, decorates⟩ := isBase ranBase sound fits inside
  cases ty : base'.ty with
  | record record name =>
    rw [ty] at ran
    obtain ⟨_, _, got, ran⟩ := bind_eq_ok.mp ran
    cases got
    cases found : Resolve.fieldNamed? s₁ record field.text with
    | none =>
      rw [found] at ran
      cases ran
    | some id =>
      rw [found] at ran
      cases ran
      obtain ⟨fields, index, kind, known, place, bound, isField⟩ :=
        fieldNamed_spec decorates.sound.kinds found
      have named : (s'.get id).name = field.text := by
        simpa using List.find?_some found
      have own := decorates.sound.symbols id bound
      unfold Symbol.Sound at own
      rw [isField] at own
      refine ⟨by rw [Expr.erase, erased], decorates.cons rfl fun globals finishes _ => ?_⟩
      have final := finishes id bound
      refine ⟨⟨record, name, ty, ⟨by rw [final]; exact named, fields, index,
        finishes.isRecord known kind, place, ?_⟩, by rw [final]; rfl⟩,
        finishes.ofValues own.2.2.2⟩
      rw [final, Symbol.forgetScope, isField]
      rfl
  | _ =>
    rw [ty] at ran
    cases ran

theorem ifElse_decorates {cond : PExpr} {yes no : Block .parsed} {ty} (isCond : ExprDecorates cond)
    (isYes : BlockDecorates yes) (isNo : BlockDecorates no) :
    ExprDecorates (.ifElse cond yes no span ty) := by
  intro env s s' e' ran sound fits inside
  rw [expr] at ran
  obtain ⟨cond', s₁, ranCond, ran⟩ := bind_eq_ok.mp ran
  obtain ⟨_, _, condIs, ran⟩ := bind_eq_ok.mp ran
  obtain ⟨yes', s₂, ranYes, ran⟩ := bind_eq_ok.mp ran
  obtain ⟨yesType, _, typedYes, ran⟩ := bind_eq_ok.mp ran
  obtain ⟨no', s₃, ranNo, ran⟩ := bind_eq_ok.mp ran
  obtain ⟨noType, _, typedNo, ran⟩ := bind_eq_ok.mp ran
  obtain ⟨_, _, sameType, ran⟩ := bind_eq_ok.mp ran
  cases ran
  obtain ⟨boolean, rfl⟩ := require_eq_ok.mp condIs
  obtain ⟨yesEq, rfl⟩ := blockValue_spec typedYes
  obtain ⟨noEq, rfl⟩ := blockValue_spec typedNo
  obtain ⟨rfl, rfl⟩ := require_eq_ok.mp sameType
  have grown := Grows.expr _ _ _ _ _ ranCond
  have grownYes := Grows.block _ _ _ _ _ ranYes
  have grownNo := Grows.block _ _ _ _ _ ranNo
  obtain ⟨erasedCond, left⟩ := isCond ranCond sound fits inside
  have fits₁ := fits.stays (.ofGrown grown)
  obtain ⟨erasedYes, middle⟩ := isYes ranYes yesEq left.sound fits₁ inside
  obtain ⟨erasedNo, right⟩ := isNo ranNo noEq middle.sound
    (fits₁.stays (.ofGrown grownYes)) inside
  have all := (left.append middle grown grownYes).append right (grown.trans grownYes) grownNo
  refine ⟨by rw [Expr.erase, erasedCond, erasedYes, erasedNo],
    all.cons rfl fun globals _ below => ?_⟩
  refine ⟨⟨boolean, yesEq, noEq⟩, Block.ofValues env.owner noEq ?_⟩
  exact fun node member => below node (List.mem_append_right _ member)

theorem block_expr_decorates {body : Block .parsed} {ty} (isBody : BlockDecorates body) :
    ExprDecorates (.block body ty) := by
  intro env s s' e' ran sound fits inside
  rw [expr] at ran
  obtain ⟨body', s₁, ranBody, ran⟩ := bind_eq_ok.mp ran
  obtain ⟨ty, _, typed, ran⟩ := bind_eq_ok.mp ran
  cases ran
  obtain ⟨typeEq, rfl⟩ := blockValue_spec typed
  obtain ⟨erased, decorates⟩ := isBody ranBody typeEq sound fits inside
  refine ⟨by rw [Expr.erase, erased], decorates.cons rfl fun globals _ below => ?_⟩
  exact ⟨typeEq, Block.ofValues _ typeEq below⟩

theorem exprs_cons_decorate {arg : PExpr} (isArg : ExprDecorates arg) (areRest : ExprsDecorate rest) :
    ExprsDecorate (arg :: rest) := by
  intro expected env s s' args' ran length sound fits inside
  obtain _ | ⟨⟨ty, mismatch⟩, expected⟩ := expected
  · simp at length
  rw [exprs] at ran
  obtain ⟨arg', s₁, ranArg, ran⟩ := bind_eq_ok.mp ran
  obtain ⟨_, _, required, ran⟩ := bind_eq_ok.mp ran
  obtain ⟨args, s₂, ranRest, ran⟩ := bind_eq_ok.mp ran
  cases ran
  obtain ⟨-, rfl⟩ := require_eq_ok.mp required
  have grown := Grows.expr _ _ _ _ _ ranArg
  obtain ⟨erased, first⟩ := isArg ranArg sound fits inside
  obtain ⟨erasedRest, others⟩ := areRest ranRest (by simpa using length) first.sound
    (fits.stays (.ofGrown grown)) inside
  exact ⟨by rw [Expr.eraseAll, erased, erasedRest],
    first.append others grown (Grows.exprs _ _ _ _ _ _ ranRest)⟩

theorem chain_followed {declared : Ty} {env : Env} {s s₁ s' : Symbols} {body : PExpr} {body' : TExpr}
    {bodies' : List TExpr} (areRest : ChainDecorates rest) (fits : Fits s env)
    (inside : env.owner.isSome) (erased : body'.erase = body)
    (first : Decorates [] s s₁ (body'.nodes env.owner)) (grown : Grown s s₁)
    (ran : (do
      isLetBody name declared body'
      let bodies ← chain env name declared rest
      return body' :: bodies : Check (List TExpr)) s₁ = .ok (bodies', s')) :
    Expr.eraseAll bodies' = body :: rest ∧ (∀ body ∈ bodies', body.ty = declared) ∧
      Decorates [] s s' (Expr.allNodes env.owner bodies') := by
  obtain ⟨_, _, isBody, ran⟩ := bind_eq_ok.mp ran
  obtain ⟨bodies, s₂, ranRest, ran⟩ := bind_eq_ok.mp ran
  cases ran
  obtain ⟨sameType, rfl⟩ := require_eq_ok.mp isBody
  obtain ⟨erasedRest, sameTypes, others⟩ := areRest ranRest first.sound
    (fits.stays (.ofGrown grown)) inside
  exact ⟨by rw [Expr.eraseAll, erased, erasedRest], List.forall_mem_cons.mpr ⟨sameType, sameTypes⟩,
    first.append others grown (Grows.chain _ _ _ _ _ _ _ ranRest)⟩

theorem chain_plain {body : PExpr} (isBody : ExprDecorates body) (areRest : ChainDecorates rest)
    (plain : ∀ env name declared, chain env name declared (body :: rest) = (do
      let body ← expr env body
      isLetBody name declared body
      let bodies ← chain env name declared rest
      return body :: bodies)) : ChainDecorates (body :: rest) := by
  intro name declared env s s' bodies' ran sound fits inside
  rw [plain] at ran
  obtain ⟨body', s₁, ranBody, ran⟩ := bind_eq_ok.mp ran
  obtain ⟨erased, first⟩ := isBody ranBody sound fits inside
  exact chain_followed areRest fits inside erased first (Grows.expr _ _ _ _ _ ranBody) ran

theorem chain_ifOnly {cond : PExpr} {yes : Block .parsed} {ty} (isCond : ExprDecorates cond)
    (isYes : BlockDecorates yes) (areRest : ChainDecorates rest) :
    ChainDecorates (.ifOnly cond yes span ty :: rest) := by
  intro name declared env s s' bodies' ran sound fits inside
  rw [chain] at ran
  obtain ⟨cond', s₁, ranCond, ran⟩ := bind_eq_ok.mp ran
  obtain ⟨_, _, condIs, ran⟩ := bind_eq_ok.mp ran
  obtain ⟨yes', s₂, ranYes, ran⟩ := bind_eq_ok.mp ran
  obtain ⟨yesType, _, typedYes, ran⟩ := bind_eq_ok.mp ran
  obtain ⟨boolean, rfl⟩ := require_eq_ok.mp condIs
  obtain ⟨yesEq, rfl⟩ := blockValue_spec typedYes
  have grown := Grows.expr _ _ _ _ _ ranCond
  have grown' := Grows.block _ _ _ _ _ ranYes
  obtain ⟨erasedCond, left⟩ := isCond ranCond sound fits inside
  obtain ⟨erasedYes, right⟩ := isYes ranYes yesEq left.sound
    (fits.stays (.ofGrown grown)) inside
  refine chain_followed areRest fits inside (by rw [Expr.erase, erasedCond, erasedYes]) ?_
    (grown.trans grown') ran
  refine (left.append right grown grown').cons rfl fun globals _ below => ?_
  refine ⟨⟨boolean, yesEq⟩, Block.ofValues env.owner yesEq ?_⟩
  exact fun node member => below node (List.mem_append_right _ member)

theorem chain_foreach {element : Ident} {elementType} {source : PExpr} {body : Block .parsed}
    {sym} {ty} (isSource : ExprDecorates source) (isBody : BlockDecorates body)
    (areRest : ChainDecorates rest) :
    ChainDecorates (.foreach element elementType source body sym span ty :: rest) := by
  intro name declared env s s' bodies' ran sound fits inside
  rw [chain] at ran
  obtain ⟨elementTy, _, typedElement, ran⟩ := bind_eq_ok.mp ran
  obtain ⟨source', s₁, ranSource, ran⟩ := bind_eq_ok.mp ran
  obtain ⟨_, _, isSequence, ran⟩ := bind_eq_ok.mp ran
  obtain ⟨⟨inner, sym⟩, s₂, ranLocal, ran⟩ := bind_eq_ok.mp ran
  obtain ⟨body', s₃, ranBody, ran⟩ := bind_eq_ok.mp ran
  obtain ⟨bodyType, _, typedBody, ran⟩ := bind_eq_ok.mp ran
  obtain ⟨isTyped, rfl⟩ := lift_eq_ok.mp typedElement
  obtain ⟨elementEq, rfl⟩ := isSource_spec isSequence
  obtain ⟨bodyEq, rfl⟩ := blockValue_spec typedBody
  have grown := Grows.expr _ _ _ _ _ ranSource
  have added := Grows.addLocal _ _ _ _ _ _ ranLocal
  have grown' := Grows.block _ _ _ _ _ ranBody
  have stays := Stays.ofGrown grown
  obtain ⟨erasedSource, left⟩ := isSource ranSource sound fits inside
  obtain ⟨sound₂, fits₂⟩ := addLocal_sound ranLocal left.sound (fits.stays stays).inner inside
    (stays.ofValues (typeOf_ofValues fits isTyped))
  have sameOwner : inner.owner = env.owner := (addLocal_spec ranLocal).2.2.owner
  obtain ⟨erasedBody, right⟩ := isBody ranBody bodyEq sound₂ fits₂
    (by rw [sameOwner]; exact inside)
  rw [sameOwner] at right
  refine chain_followed areRest fits inside (by rw [Expr.erase, erasedSource, erasedBody]) ?_
    ((grown.trans added).trans grown') ran
  refine left.addLocal ranLocal right grown grown' inside rfl
    fun globals before after isLocal typeEq => ?_
  have sourceEq : source'.ty = .seqOf [(globals.symbol sym).ty] := by
    rw [typeEq]
    exact (Expr.ofValues _ before).eq_seqOf elementEq
  exact ⟨⟨isLocal, sourceEq, bodyEq⟩, Block.ofValues _ bodyEq after⟩

theorem block_decorates {stmts : List PStmt} {ty} (areStmts : StmtsDecorate stmts) :
    BlockDecorates ⟨stmts, span, ty⟩ := by
  intro env s s' ty body' ran typed sound fits inside
  rw [block] at ran
  obtain ⟨⟨inner, ids⟩, s₁, ranHoist, ran⟩ := bind_eq_ok.mp ran
  obtain ⟨stmts', s₂, ranStmts, ran⟩ := bind_eq_ok.mp ran
  cases ran
  obtain ⟨erased, within⟩ := stmts_hoisted ranHoist ranStmts sound fits.inner (Or.inl inside)
    (areStmts ranStmts)
  obtain ⟨value, last, same⟩ := Resolve.lastType?_eq_some.mp typed
  refine ⟨by rw [Block.erase, erased], within.cons rfl fun globals _ below => ?_⟩
  refine ⟨⟨value, last, by rw [same]; exact typed⟩, fun ty found => ?_⟩
  cases typed.symm.trans found
  subst same
  refine Expr.ofValues env.owner fun node member => below node ?_
  refine Stmt.nodes_subset (List.mem_of_getLast? last) ?_
  rw [Stmt.nodes]
  exact List.mem_cons_of_mem _ member

theorem stmts_cons_decorate {first : PStmt} {rest : List PStmt} (isFirst : StmtDecorates first)
    (areRest : StmtsDecorate rest) : StmtsDecorate (first :: rest) := by
  intro ids env s s' stmts' ran sound fits inside hoisted length
  obtain _ | ⟨id?, ids⟩ := ids
  · simp at length
  rw [checkStmts] at ran
  obtain ⟨⟨stmt, env₁⟩, s₁, ranFirst, ran⟩ := bind_eq_ok.mp ran
  obtain ⟨stmts, s₂, ranRest, ran⟩ := bind_eq_ok.mp ran
  cases ran
  have grown := Grows.checkStmt _ _ _ _ _ _ ranFirst
  have later : ∀ pair ∈ rest.zip ids, HasSymbol s pair.1 pair.2 :=
    fun pair member => hoisted pair (List.mem_cons_of_mem _ member)
  replace length : ids.length = rest.length := by simpa using length
  obtain ⟨erased, fits₁, sameOwner, head⟩ := isFirst ranFirst sound fits
    (inside.imp_right fun all => all first List.mem_cons_self)
    (hoisted _ List.mem_cons_self).given
  obtain ⟨erasedRest, tail⟩ := areRest ranRest head.sound fits₁
    (by
      rw [sameOwner]
      exact inside.imp_right fun all other member => all other (List.mem_cons_of_mem _ member))
    (fun pair member => (later pair member).grown grown.ext) length
  rw [List.tail_cons, hoistedSymbols_grown later grown.ext, sameOwner] at tail
  exact ⟨by rw [Stmt.eraseAll, erased, erasedRest],
    head.append tail grown (Grows.checkStmts _ _ _ _ _ _ ranRest)⟩

theorem letIn_decorates {type : TypeRef} {first : PExpr} {chained : List PExpr} {sym}
    (isFirst : ExprDecorates first) (isChain : ChainDecorates chained) :
    StmtDecorates (.letIn name type first chained span sym) := by
  intro id env env' s s' stmt' ran sound fits inside _
  replace inside : env.owner.isSome := inside.resolve_right (fun wrong => wrong)
  rw [checkStmt] at ran
  obtain ⟨declared, _, typed, ran⟩ := bind_eq_ok.mp ran
  obtain ⟨first', s₁, ranFirst, ran⟩ := bind_eq_ok.mp ran
  obtain ⟨_, _, isBody, ran⟩ := bind_eq_ok.mp ran
  obtain ⟨⟨env₂, sym⟩, s₂, ranLocal, ran⟩ := bind_eq_ok.mp ran
  obtain ⟨chained', s₃, ranChain, ran⟩ := bind_eq_ok.mp ran
  cases ran
  obtain ⟨isTyped, rfl⟩ := lift_eq_ok.mp typed
  obtain ⟨sameType, rfl⟩ := require_eq_ok.mp isBody
  have grown := Grows.expr _ _ _ _ _ ranFirst
  have grown' := Grows.chain _ _ _ _ _ _ _ ranChain
  have stays := Stays.ofGrown grown
  obtain ⟨erasedFirst, left⟩ := isFirst ranFirst sound fits.inner inside
  obtain ⟨sound₂, fits₂⟩ := addLocal_sound ranLocal left.sound (fits.stays stays) inside
    (stays.ofValues (typeOf_ofValues fits isTyped))
  have sameOwner : env'.owner = env.owner := (addLocal_spec ranLocal).2.2.owner
  obtain ⟨erasedChain, sameTypes, right⟩ := isChain ranChain sound₂ fits₂
    (by rw [sameOwner]; exact inside)
  rw [sameOwner] at right
  refine ⟨by rw [Stmt.erase, erasedFirst, erasedChain], fits₂.stays (.ofGrown grown'), sameOwner,
    ?_⟩
  refine left.addLocal ranLocal right grown grown' inside rfl fun globals _ _ isLocal typeEq => ?_
  refine ⟨isLocal, ?_⟩
  rw [typeEq]
  exact List.forall_mem_cons.mpr ⟨sameType, sameTypes⟩

theorem func_decorates {params : List (Binding .parsed)} {returns : TypeRef} {body : Block .parsed}
    {sym} (isBody : BlockDecorates body) :
    StmtDecorates (.func name params returns body span sym) := by
  intro id env env' s s' stmt' ran sound fits _ hoisted
  obtain ⟨rfl, ids, returnType, scope, body', kind, ranBody, typeEq, rfl⟩ := checkStmt_func ran
  have grown := Grows.block _ _ _ _ _ ranBody
  obtain ⟨bound, _, _, found, bounds, names⟩ := hoisted.func
  rw [found] at kind
  cases kind
  have members : s.members id = ids := by simp [Symbols.members, found]
  have length : ids.length = params.length := by simpa using congrArg List.length names
  obtain ⟨erasedParams, syms⟩ := erase_bindAll length
  obtain ⟨erasedBody, decorates⟩ := isBody ranBody typeEq sound
    (fits.body (by rw [found]; rfl) bounds names) rfl
  refine ⟨by rw [Stmt.erase, erasedParams, erasedBody], fits.stays (.ofGrown grown), rfl, ?_⟩
  refine decorates.cons (by rw [ownSymbols, members]; exact congrArg (id :: ·) syms)
    fun globals finishes _ => ?_
  have before := finishes.before grown.ext
  refine ⟨by rw [before id bound, found]; rfl, fun param member => ?_, returnType, ?_, typeEq⟩
  · obtain ⟨listed, isNamed⟩ := name_of_mem_bindAll names member
    rw [before _ (bounds _ listed)]
    exact isNamed
  · rw [syms]
    exact before.isFunction bound (by rw [found])

theorem record_decorates {fields : List (Binding .parsed)} {sym} :
    StmtDecorates (.record name fields span sym) := by
  intro id env env' s s' stmt' ran sound fits _ hoisted
  rw [checkStmt] at ran
  obtain ⟨_, _, got, ran⟩ := bind_eq_ok.mp ran
  cases ran
  cases got
  obtain ⟨bound, ids, found, bounds, names⟩ := hoisted.record
  have members : s.members id = ids := by simp [Symbols.members, found]
  have fieldsEq : s.fields id = ids := by simp [Symbols.fields, Symbol.fields, found]
  have length : ids.length = fields.length := by simpa using congrArg List.length names
  obtain ⟨erasedFields, syms⟩ := erase_bindAll length
  refine ⟨by rw [Stmt.erase, fieldsEq, erasedFields], fits, rfl, ?_⟩
  rw [fieldsEq]
  refine Decorates.leaf sound (by rw [ownSymbols, members]; exact congrArg (id :: ·) syms)
    fun globals finishes => ?_
  refine ⟨by rw [finishes id bound, found]; rfl, fun field member => ?_, ?_⟩
  · obtain ⟨listed, isNamed⟩ := name_of_mem_bindAll names member
    rw [finishes _ (bounds _ listed)]
    exact isNamed
  · rw [syms]
    exact finishes.isRecord bound (by rw [found])

theorem expr_stmt_decorates {value : PExpr} (isValue : ExprDecorates value) :
    StmtDecorates (.expr value) := by
  intro id env env' s s' stmt' ran sound fits inside _
  replace inside : env.owner.isSome := inside.resolve_right (fun wrong => wrong)
  rw [checkStmt] at ran
  obtain ⟨value', s₁, ranValue, ran⟩ := bind_eq_ok.mp ran
  cases ran
  have grown := Grows.expr _ _ _ _ _ ranValue
  obtain ⟨erased, decorates⟩ := isValue ranValue sound fits inside
  exact ⟨by rw [Stmt.erase, erased], fits.stays (.ofGrown grown), rfl,
    decorates.cons rfl fun _ _ _ => trivial⟩

end Forms

/-! ### Trees -/

mutual

theorem expr_decorated : ∀ e : PExpr, ExprDecorates e
  | .number .. => by
    intro env s s' e' ran sound _ _
    cases ran
    exact ⟨rfl, Decorates.leaf sound rfl fun _ _ => ⟨rfl, .number⟩⟩
  | .string .. => by
    intro env s s' e' ran sound _ _
    cases ran
    exact ⟨rfl, Decorates.leaf sound rfl fun _ _ => ⟨rfl, .string⟩⟩
  | .bool .. => by
    intro env s s' e' ran sound _ _
    cases ran
    exact ⟨rfl, Decorates.leaf sound rfl fun _ _ => ⟨rfl, .boolean⟩⟩
  | .named .. => named_decorates
  | .binary _ lhs rhs .. => binary_decorates (expr_decorated lhs) (expr_decorated rhs)
  | .range first limit none .. =>
    range_decorates (expr_decorated first) (expr_decorated limit) nofun
  | .range first limit (some step) .. =>
    range_decorates (expr_decorated first) (expr_decorated limit) fun _ found =>
      Option.some.inj found ▸ expr_decorated step
  | .call _ args .. => call_decorates (exprs_decorated args)
  | .construct _ args .. => construct_decorates (exprs_decorated args)
  | .member base .. => member_decorates (expr_decorated base)
  | .ifElse cond yes no .. =>
    ifElse_decorates (expr_decorated cond) (block_decorated yes) (block_decorated no)
  | .ifOnly .. => by
    intro env s s' e' ran
    cases ran
  | .foreach .. => by
    intro env s s' e' ran
    cases ran
  | .block body _ => block_expr_decorates (block_decorated body)

theorem exprs_decorated : ∀ args : List PExpr, ExprsDecorate args
  | [] => by
    intro expected env s s' args' ran _ sound _ _
    cases ran
    exact ⟨rfl, Decorates.nil sound⟩
  | arg :: rest => exprs_cons_decorate (expr_decorated arg) (exprs_decorated rest)

theorem chain_decorated : ∀ bodies : List PExpr, ChainDecorates bodies
  | [] => by
    intro name declared env s s' bodies' ran sound _ _
    cases ran
    exact ⟨rfl, nofun, Decorates.nil sound⟩
  | body :: rest => by
    have areRest := chain_decorated rest
    cases body with
    | ifOnly cond yes =>
      exact chain_ifOnly (expr_decorated cond) (block_decorated yes) areRest
    | «foreach» _ _ source body =>
      exact chain_foreach (expr_decorated source) (block_decorated body) areRest
    | _ => exact chain_plain (expr_decorated _) areRest fun _ _ _ => rfl

theorem block_decorated : ∀ body : Block .parsed, BlockDecorates body
  | ⟨stmts, _, _⟩ => block_decorates (stmts_decorated stmts)

theorem stmts_decorated : ∀ stmts : List PStmt, StmtsDecorate stmts
  | [] => by
    intro ids env s s' stmts' ran sound _ _ _ _
    cases ran
    exact ⟨rfl, Decorates.nil sound⟩
  | first :: rest => stmts_cons_decorate (stmt_decorated first) (stmts_decorated rest)

theorem stmt_decorated : ∀ stmt : PStmt, StmtDecorates stmt
  | .letIn _ _ first chained .. => letIn_decorates (expr_decorated first) (chain_decorated chained)
  | .func _ _ _ body .. => func_decorates (block_decorated body)
  | .record .. => record_decorates
  | .expr value => expr_stmt_decorates (expr_decorated value)

end

end Lexical

theorem Module.check_decorated {m : Module .parsed} {names : NameTable} {resolved : Resolved}
    (top : ∀ stmt ∈ m.stmts, stmt.IsDeclaration) (ran : m.check names = .ok resolved) :
    resolved.module.erase = m ∧ Lexical.Decorates [] #[] resolved.symbols resolved.module.nodes := by
  obtain ⟨⟨stmts, symbols⟩, ranAll, ran⟩ := Stateful.except_bind_eq_ok.mp ran
  cases ran
  obtain ⟨⟨env, ids⟩, s₁, ranHoist, ranStmts⟩ := bind_eq_ok.mp ranAll
  obtain ⟨erased, decorates⟩ := Lexical.stmts_hoisted ranHoist ranStmts .empty (.builtin names)
    (Or.inr top) (Lexical.stmts_decorated m.stmts ranStmts)
  exact ⟨congrArg Module.mk erased, decorates⟩

end LetChain
