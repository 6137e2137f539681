import LetChain.Typing.Declare

/-! Resolving a parsed module into a typed one, in one pass in source order. -/

namespace LetChain

namespace Resolve

abbrev TExpr := Expr .typed
abbrev TStmt := Stmt .typed

def blockValue (body : Block .typed) : Resolve Ty :=
  match body.ty with
  | some ty => pure ty
  | none => failType body.span .missingValue

def lastType? (stmts : List TStmt) : Option Ty :=
  match stmts.getLast? with
  | some (.expr value) => some value.ty
  | _ => none

def resultType? (op : Operator) (lhs rhs : Ty) : Option Ty :=
  match op with
  | .add | .sub | .mul | .div | .rem =>
    if lhs = .number ∧ rhs = .number then some .number else none
  | .greater | .less => if lhs = .number ∧ rhs = .number then some .boolean else none
  | .and | .or => if lhs = .boolean ∧ rhs = .boolean then some .boolean else none
  | .eq | .ne => if lhs = rhs then some .boolean else none
  | .concat =>
    if (lhs = .number ∨ lhs = .string) ∧ (rhs = .number ∨ rhs = .string) then some .string
    else none

/-- The parameter or local that a name means. Those of another function are out of reach. -/
def resolveValue (ident : Ident) : Resolve SymbolId := do
  let bindings ← get
  match bindings.scopes.lookup? ident.text with
  | none => failBind ident.span (.undefinedName ident.text)
  | some id =>
    let found := bindings.symbols.get id
    match found.kind with
    | .param _ | .localVar =>
      if found.owner.isSome ∧ found.owner ≠ bindings.owner then
        failBind ident.span (.captured ident.text)
      else return id
    | other => failBind ident.span (.wrongKind ident.text "value" other.role)

def resolveRole (ident : Ident) (role : String) : Resolve SymbolId := do
  let bindings ← get
  match bindings.scopes.lookup? ident.text with
  | none => failBind ident.span (.undefinedName ident.text)
  | some id =>
    let actual := (bindings.symbols.get id).kind.role
    if actual = role then return id
    else failBind ident.span (.wrongKind ident.text role actual)

/-- What an argument must be, and what is wrong if it is not. -/
abbrev Expected := Ty × (Ty → TypeError)

def expectedArgs (symbols : Symbols) (name : String) (params : List SymbolId) : List Expected :=
  params.zipIdx.map fun (param, index) =>
    let ty := (symbols.get param).ty
    (ty, TypeError.argument name (index + 1) ty)

def expectedFields (symbols : Symbols) (name : String) (fields : List SymbolId) : List Expected :=
  fields.map fun field =>
    let found := symbols.get field
    (found.ty, TypeError.field name found.name found.ty)

def checkArity (span : Span) (name : Ident) (expected actual : Nat) : Resolve Unit :=
  if actual = expected then pure () else failBind span (.arity name.text expected actual)

def checkLetBody (name : Ident) (declared : Ty) (body : TExpr) : Resolve Unit :=
  if body.ty = declared then pure ()
  else failType body.span (.letBody name.text declared body.ty)

def checkCondition (cond : TExpr) : Resolve Unit :=
  if cond.ty = .boolean then pure () else failType cond.span (.condition cond.ty)

def checkBound (bound : TExpr) : Resolve Unit :=
  if bound.ty = .number then pure () else failType bound.span (.rangeBound bound.ty)

def fieldNamed? (symbols : Symbols) (record : SymbolId) (name : String) : Option SymbolId :=
  (symbols.fields record).find? fun field => (symbols.get field).name = name

def bindAll (names : List (Binding .parsed)) (ids : List SymbolId) : List (Binding .typed) :=
  (names.zip ids).map fun (name, id) => ⟨name.name, name.type, id⟩

def checkElement (source : TExpr) (elementType : TypeRef) (declared : Ty) : Resolve Unit :=
  match source.ty.element? with
  | none => failType source.span (.notASequence source.ty)
  | some actual =>
    if actual = declared then pure ()
    else failType elementType.span (.element declared actual)

mutual

def resolveExpr : PExpr → Resolve TExpr
  | .number value span _ => return .number value span .number
  | .string value span _ => return .string value span .string
  | .bool value span _ => return .bool value span .boolean
  | .named name _ span _ => do
    let id ← resolveValue name
    return .named name id span (← symbol id).ty
  | .binary op lhs rhs span _ => do
    let lhs ← resolveExpr lhs
    let rhs ← resolveExpr rhs
    match resultType? op lhs.ty rhs.ty with
    | some ty => return .binary op lhs rhs span ty
    | none => failType span (.operands op lhs.ty rhs.ty)
  | .range first limit step span _ => do
    let first ← resolveExpr first
    checkBound first
    let limit ← resolveExpr limit
    checkBound limit
    match step with
    | none => return .range first limit none span (.seqOfElement .number)
    | some step =>
      let step ← resolveExpr step
      checkBound step
      return .range first limit (some step) span (.seqOfElement .number)
  | .call name args _ span _ => do
    let id ← resolveRole name "function"
    let bindings ← get
    match (bindings.symbols.get id).kind with
    | .function params returns _ =>
      checkArity span name params.length args.length
      let args ← resolveArgs #[] args (expectedArgs bindings.symbols name.text params)
      return .call name args id span returns
    | other => failBind name.span (.wrongKind name.text "function" other.role)
  | .construct name args _ span _ => do
    let id ← resolveRole name "type"
    let bindings ← get
    let fields := bindings.symbols.fields id
    checkArity span name fields.length args.length
    let args ← resolveArgs #[] args (expectedFields bindings.symbols name.text fields)
    return .construct name args id span (← symbol id).ty
  | .member base field _ span _ => do
    let base ← resolveExpr base
    match base.ty with
    | .record record name =>
      let bindings ← get
      match fieldNamed? bindings.symbols record field.text with
      | some id => return .member base field id span (bindings.symbols.get id).ty
      | none => failBind field.span (.undefinedField name field.text)
    | other => failType base.span (.notARecord other)
  | .ifElse cond yes no span _ => do
    let cond ← resolveExpr cond
    checkCondition cond
    let yes ← resolveBlock yes
    let yesType ← blockValue yes
    let no ← resolveBlock no
    let noType ← blockValue no
    if yesType = noType then return .ifElse cond yes no span yesType
    else failType span (.branches yesType noType)
  | .ifOnly _ _ span _ => failType span .misplacedSelfAssignment
  | .foreach _ _ _ _ _ span _ => failType span .misplacedSelfAssignment
  | .block body _ => do
    let body ← resolveBlock body
    let ty ← blockValue body
    return .block body ty

def resolveArgs (done : Array TExpr) : List PExpr → List Expected → Resolve (List TExpr)
  | arg :: rest, (ty, mismatch) :: expected => do
    let arg ← resolveExpr arg
    if arg.ty = ty then resolveArgs (done.push arg) rest expected
    else failType arg.span (mismatch arg.ty)
  | _, _ => return done.toList

def resolveChain (name : Ident) (declared : Ty) (done : Array TExpr) :
    List PExpr → Resolve (List TExpr)
  | [] => return done.toList
  | .ifOnly cond yes span _ :: rest => do
    let cond ← resolveExpr cond
    checkCondition cond
    let yes ← resolveBlock yes
    let body := Expr.ifOnly cond yes span (← blockValue yes)
    checkLetBody name declared body
    resolveChain name declared (done.push body) rest
  | .foreach element elementType source body _ span _ :: rest => do
    let elementTy ← resolveType elementType
    let source ← resolveExpr source
    checkElement source elementType elementTy
    modifyScopes Scopes.push
    let id ← declareLocal element elementTy
    let body ← resolveBlock body
    modifyScopes Scopes.pop
    let body := Expr.foreach element elementType source body id span (← blockValue body)
    checkLetBody name declared body
    resolveChain name declared (done.push body) rest
  | body :: rest => do
    let body ← resolveExpr body
    checkLetBody name declared body
    resolveChain name declared (done.push body) rest

def resolveBlock : Block .parsed → Resolve (Block .typed)
  | ⟨stmts, span, _⟩ => do
    modifyScopes Scopes.push
    let ids ← hoist stmts
    let stmts ← resolveStmts #[] stmts ids
    modifyScopes Scopes.pop
    return ⟨stmts, span, lastType? stmts⟩

def resolveStmts (done : Array TStmt) :
    List PStmt → List (Option SymbolId) → Resolve (List TStmt)
  | [], _ => return done.toList
  | first :: rest, ids => do
    let stmt ← resolveStmt (ids.head?.join.getD 0) first
    resolveStmts (done.push stmt) rest ids.tail

def resolveStmt (id : SymbolId) : PStmt → Resolve TStmt
  | .letIn name type first chained span _ => do
    let declared ← resolveType type
    modifyScopes Scopes.push
    let first ← resolveExpr first
    modifyScopes Scopes.pop
    checkLetBody name declared first
    let sym ← declareLocal name declared
    let chained ← resolveChain name declared #[] chained
    return .letIn name type first chained span sym
  | .func name params returns body span _ => do
    match (← symbol id).kind with
    | .function ids returnType scope =>
      let previousScope ← enterScope scope
      let previousOwner := (← get).owner
      setOwner (some id)
      let body ← resolveBlock body
      setOwner previousOwner
      let _ ← enterScope previousScope
      let bodyType ← blockValue body
      if bodyType = returnType then return .func name (bindAll params ids) returns body span id
      else failType body.span (.returns name.text returnType bodyType)
    | other => failBind name.span (.wrongKind name.text "function" other.role)
  | .record name fields span _ => do
    return .record name (bindAll fields ((← get).symbols.fields id)) span id
  | .expr value => do return .expr (← resolveExpr value)

end

/-- The outermost scope knows the built-in types under the names that the table gives them. -/
def builtinScopes (names : NameTable) : Scopes :=
  let builtins := [(names.numberName?, Ty.number), (names.stringName?, .string),
    (names.booleanName?, .boolean), (names.seqName?, .seq)]
  builtins.foldl (fun scopes (name?, ty) =>
    match name? with
    | some name => (scopes.declareType? name ty).getD scopes
    | none => scopes) Scopes.initial

end Resolve

structure Resolved where
  module : Module .typed
  symbols : Symbols

def Module.resolve (m : Module .parsed) (names : NameTable) : Except CompileError Resolved := do
  let resolving : Resolve (List (Stmt .typed)) := do
    let ids ← Resolve.hoist m.stmts
    Resolve.resolveStmts #[] m.stmts ids
  let (stmts, bindings) ← resolving.run ⟨#[], Resolve.builtinScopes names, none⟩
  return ⟨⟨stmts⟩, bindings.symbols⟩

end LetChain
