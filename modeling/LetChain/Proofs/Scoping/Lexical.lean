import LetChain.Typing.Resolve

/-! A second checker, with plain lexical scoping. It hands an immutable environment down the tree:
the layers of names that enclose a place, innermost first, and the function around it. Nothing is
entered or left, and all that one part hands on to the next is the list of symbols made so far,
which numbers the next one. -/

namespace LetChain

def SymbolKind.forgetScope : SymbolKind → SymbolKind
  | function params returns _ => function params returns 0
  | other => other

def Symbol.forgetScope (symbol : Symbol) : Symbol :=
  { symbol with kind := symbol.kind.forgetScope }

def Symbols.forgetScopes (symbols : Symbols) : Symbols := symbols.map Symbol.forgetScope

def Resolved.forgetScopes (resolved : Resolved) : Resolved :=
  ⟨resolved.module, resolved.symbols.forgetScopes⟩

namespace Lexical

open Resolve (PExpr PStmt TExpr TStmt Expected)

/-- The names that one scope gives a meaning, and apart from them its types. -/
structure Layer where
  names : List (String × SymbolId)
  types : List (String × Ty)

/-- The innermost layer, the layers around it, and the function whose body this is. -/
structure Env where
  layer : Layer
  outer : List Layer
  owner : Option SymbolId

namespace Env

def layers (env : Env) : List Layer := env.layer :: env.outer

def symbol? (env : Env) (name : String) : Option SymbolId :=
  env.layers.findSome? (·.names.lookup name)

def type? (env : Env) (name : String) : Option Ty :=
  env.layers.findSome? (·.types.lookup name)

def inner (env : Env) : Env := ⟨⟨[], []⟩, env.layers, env.owner⟩

/-- The inside of a function, whose parameters have a layer of their own. -/
def body (env : Env) (params : List (Binding .parsed)) (ids : List SymbolId) (owner : SymbolId) :
    Env :=
  ⟨⟨(params.map (·.name.text)).zip ids, []⟩, env.layers, some owner⟩

def declare (env : Env) (ident : Ident) (id : SymbolId) : Except CompileError Env :=
  match env.layer.names.lookup ident.text with
  | some _ => .error (.bind ⟨ident.span, .duplicate ident.text⟩)
  | none => .ok { env with layer.names := env.layer.names ++ [(ident.text, id)] }

def declareType (env : Env) (ident : Ident) (ty : Ty) : Except CompileError Env :=
  match env.layer.types.lookup ident.text with
  | some _ => .error (.bind ⟨ident.span, .duplicate ident.text⟩)
  | none => .ok { env with layer.types := env.layer.types ++ [(ident.text, ty)] }

/-- The built-in types under the names that the table gives them. -/
def builtin (names : NameTable) : Env :=
  let builtins := [(names.numberName?, Ty.number), (names.stringName?, .string),
    (names.booleanName?, .boolean), (names.seqName?, .seq)]
  ⟨⟨[], builtins.filterMap fun (name?, ty) => name?.map (·, ty)⟩, [], none⟩

end Env

abbrev Check := StateT Symbols (Except CompileError)

def addSymbol (symbol : Symbol) : Check SymbolId :=
  modifyGet fun symbols => (symbols.size, symbols.push symbol)

def setKind (id : SymbolId) (kind : SymbolKind) : Check Unit :=
  modify fun symbols => symbols.setKind id kind

def require (condition : Prop) [Decidable condition] (error : CompileError) : Check Unit :=
  if condition then pure () else throw error

mutual

def typeOf (env : Env) : TypeRef → Except CompileError Ty
  | ⟨name, args, span⟩ =>
    match env.type? name.text with
    | none => .error (.bind ⟨span, .undefinedType name.text⟩)
    | some ty =>
      if args.length ≠ Resolve.typeArity ty then
        .error (.bind ⟨span, .genericArity name.text (Resolve.typeArity ty) args.length⟩)
      else
        match ty with
        | .seq => (typesOf env args).map Ty.seqOf
        | other => .ok other

def typesOf (env : Env) : List TypeRef → Except CompileError (List Ty)
  | [] => .ok []
  | first :: rest => do
    let ty ← typeOf env first
    let types ← typesOf env rest
    return ty :: types

end

/-! ### Hoisting -/

def recordName (env : Env) (name : Ident) (span : Span) : Check (Env × SymbolId) := do
  let id := (← get).size
  let ty := Ty.record id name.text
  let _ ← addSymbol ⟨name.text, ty, .record [], span, none⟩
  let env ← env.declare name id
  let env ← env.declareType name ty
  return (env, id)

def recordNames (env : Env) : List PStmt → Check (Env × List (Option SymbolId))
  | [] => return (env, [])
  | .record name _ span _ :: rest => do
    let (env, id) ← recordName env name span
    let (env, ids) ← recordNames env rest
    return (env, some id :: ids)
  | _ :: rest => do
    let (env, ids) ← recordNames env rest
    return (env, none :: ids)

/-- The fields from `index` on, whose names differ from those `seen` before. -/
def fields (env : Env) (record : SymbolId) (index : Nat) (seen : List String) :
    List (Binding .parsed) → Check (List SymbolId)
  | [] => return []
  | field :: rest => do
    require (field.name.text ∉ seen) (.bind ⟨field.name.span, .duplicate field.name.text⟩)
    let ty ← typeOf env field.type
    require (index ≤ Resolve.maxIndex) (.bind ⟨field.name.span, .tooMany "fields"⟩)
    let id ← addSymbol ⟨field.name.text, ty, .field record index, field.name.span, none⟩
    let ids ← fields env record (index + 1) (field.name.text :: seen) rest
    return id :: ids

def allFields (env : Env) : List (PStmt × Option SymbolId) → Check Unit
  | [] => return ()
  | (.record _ declared _ _, some id) :: rest => do
    let ids ← fields env id 0 [] declared
    setKind id (.record ids)
    allFields env rest
  | _ :: rest => allFields env rest

/-- Declares parameters in the layer of their function. -/
def params (env : Env) (owner : SymbolId) (index : Nat) :
    List (Binding .parsed × Ty) → Check (List SymbolId)
  | [] => return []
  | (param, ty) :: rest => do
    require (index ≤ Resolve.maxIndex) (.bind ⟨param.name.span, .tooMany "parameters"⟩)
    let id ← addSymbol ⟨param.name.text, ty, .param index, param.name.span, some owner⟩
    let env ← env.declare param.name id
    let ids ← params env owner (index + 1) rest
    return id :: ids

def function (env : Env) (name : Ident) (declared : List (Binding .parsed)) (returns : TypeRef)
    (span : Span) : Check (Env × SymbolId) := do
  let returnType ← typeOf env returns
  let id ← addSymbol ⟨name.text, .function, .function [] returnType 0, span, none⟩
  let env ← env.declare name id
  let types ← typesOf env (declared.map (·.type))
  let ids ← params env.inner id 0 (declared.zip types)
  setKind id (.function ids returnType 0)
  return (env, id)

def functions (env : Env) :
    List (PStmt × Option SymbolId) → Check (Env × List (Option SymbolId))
  | [] => return (env, [])
  | (.func name params returns _ span _, _) :: rest => do
    let (env, id) ← function env name params returns span
    let (env, ids) ← functions env rest
    return (env, some id :: ids)
  | (_, id) :: rest => do
    let (env, ids) ← functions env rest
    return (env, id :: ids)

/-- The environment in which statements are checked, and the symbol that each declares. -/
def hoist (env : Env) (stmts : List PStmt) : Check (Env × List (Option SymbolId)) := do
  let (env, records) ← recordNames env stmts
  allFields env (stmts.zip records)
  functions env (stmts.zip records)

def value (env : Env) (ident : Ident) : Check SymbolId := do
  match env.symbol? ident.text with
  | none => throw (.bind ⟨ident.span, .undefinedName ident.text⟩)
  | some id =>
    let found := (← get).get id
    match found.kind with
    | .param _ | .localVar =>
      if found.owner.isSome ∧ found.owner ≠ env.owner then
        throw (.bind ⟨ident.span, .captured ident.text⟩)
      else return id
    | other => throw (.bind ⟨ident.span, .wrongKind ident.text "value" other.role⟩)

def role (env : Env) (ident : Ident) (expected : String) : Check SymbolId := do
  match env.symbol? ident.text with
  | none => throw (.bind ⟨ident.span, .undefinedName ident.text⟩)
  | some id =>
    let actual := ((← get).get id).kind.role
    if actual = expected then return id
    else throw (.bind ⟨ident.span, .wrongKind ident.text expected actual⟩)

def addLocal (env : Env) (ident : Ident) (ty : Ty) : Check (Env × SymbolId) := do
  let id ← addSymbol ⟨ident.text, ty, .localVar, ident.span, env.owner⟩
  let env ← env.declare ident id
  return (env, id)

/-! ### Types of what was checked -/

def blockValue (body : Block .typed) : Check Ty :=
  match body.ty with
  | some ty => return ty
  | none => throw (.type ⟨body.span, .missingValue⟩)

def isBound (bound : TExpr) : Check Unit :=
  require (bound.ty = .number) (.type ⟨bound.span, .rangeBound bound.ty⟩)

def isCondition (cond : TExpr) : Check Unit :=
  require (cond.ty = .boolean) (.type ⟨cond.span, .condition cond.ty⟩)

def isLetBody (name : Ident) (declared : Ty) (body : TExpr) : Check Unit :=
  require (body.ty = declared) (.type ⟨body.span, .letBody name.text declared body.ty⟩)

def isSource (source : TExpr) (elementType : TypeRef) (declared : Ty) : Check Unit :=
  match source.ty.element? with
  | none => throw (.type ⟨source.span, .notASequence source.ty⟩)
  | some actual =>
    require (actual = declared) (.type ⟨elementType.span, .element declared actual⟩)

mutual

def expr (env : Env) : PExpr → Check TExpr
  | .number value span _ => return .number value span .number
  | .string value span _ => return .string value span .string
  | .bool value span _ => return .bool value span .boolean
  | .named name _ span _ => do
    let id ← value env name
    return .named name id span ((← get).get id).ty
  | .binary op lhs rhs span _ => do
    let lhs ← expr env lhs
    let rhs ← expr env rhs
    match Resolve.resultType? op lhs.ty rhs.ty with
    | some ty => return .binary op lhs rhs span ty
    | none => throw (.type ⟨span, .operands op lhs.ty rhs.ty⟩)
  | .range first limit step span _ => do
    let first ← expr env first
    isBound first
    let limit ← expr env limit
    isBound limit
    match step with
    | none => return .range first limit none span (.seqOfElement .number)
    | some step =>
      let step ← expr env step
      isBound step
      return .range first limit (some step) span (.seqOfElement .number)
  | .call name args _ span _ => do
    let id ← role env name "function"
    let symbols ← get
    match (symbols.get id).kind with
    | .function params returns _ =>
      require (args.length = params.length)
        (.bind ⟨span, .arity name.text params.length args.length⟩)
      let args ← exprs env args (Resolve.expectedArgs symbols name.text params)
      return .call name args id span returns
    | other => throw (.bind ⟨name.span, .wrongKind name.text "function" other.role⟩)
  | .construct name args _ span _ => do
    let id ← role env name "type"
    let symbols ← get
    let fields := symbols.fields id
    require (args.length = fields.length)
      (.bind ⟨span, .arity name.text fields.length args.length⟩)
    let args ← exprs env args (Resolve.expectedFields symbols name.text fields)
    return .construct name args id span ((← get).get id).ty
  | .member base field _ span _ => do
    let base ← expr env base
    match base.ty with
    | .record record name =>
      let symbols ← get
      match Resolve.fieldNamed? symbols record field.text with
      | some id => return .member base field id span (symbols.get id).ty
      | none => throw (.bind ⟨field.span, .undefinedField name field.text⟩)
    | other => throw (.type ⟨base.span, .notARecord other⟩)
  | .ifElse cond yes no span _ => do
    let cond ← expr env cond
    isCondition cond
    let yes ← block env yes
    let yesType ← blockValue yes
    let no ← block env no
    let noType ← blockValue no
    require (yesType = noType) (.type ⟨span, .branches yesType noType⟩)
    return .ifElse cond yes no span yesType
  | .ifOnly _ _ span _ => throw (.type ⟨span, .misplacedSelfAssignment⟩)
  | .foreach _ _ _ _ _ span _ => throw (.type ⟨span, .misplacedSelfAssignment⟩)
  | .block body _ => do
    let body ← block env body
    let ty ← blockValue body
    return .block body ty

def exprs (env : Env) : List PExpr → List Expected → Check (List TExpr)
  | arg :: rest, (ty, mismatch) :: expected => do
    let arg ← expr env arg
    require (arg.ty = ty) (.type ⟨arg.span, mismatch arg.ty⟩)
    let args ← exprs env rest expected
    return arg :: args
  | _, _ => return []

/-- The chained bodies of a let. The element of a loop has a layer around the body's own. -/
def chain (env : Env) (name : Ident) (declared : Ty) : List PExpr → Check (List TExpr)
  | [] => return []
  | .ifOnly cond yes span _ :: rest => do
    let cond ← expr env cond
    isCondition cond
    let yes ← block env yes
    let body := Expr.ifOnly cond yes span (← blockValue yes)
    isLetBody name declared body
    let bodies ← chain env name declared rest
    return body :: bodies
  | .foreach element elementType source body _ span _ :: rest => do
    let elementTy ← typeOf env elementType
    let source ← expr env source
    isSource source elementType elementTy
    let (inside, id) ← addLocal env.inner element elementTy
    let body ← block inside body
    let body := Expr.foreach element elementType source body id span (← blockValue body)
    isLetBody name declared body
    let bodies ← chain env name declared rest
    return body :: bodies
  | body :: rest => do
    let body ← expr env body
    isLetBody name declared body
    let bodies ← chain env name declared rest
    return body :: bodies

/-- The statements of a block see a layer of their own, which no one else sees. -/
def block (env : Env) : Block .parsed → Check (Block .typed)
  | ⟨stmts, span, _⟩ => do
    let (inside, ids) ← hoist env.inner stmts
    let stmts ← checkStmts inside stmts ids
    return ⟨stmts, span, Resolve.lastType? stmts⟩

/-- Each statement is checked in the environment that the one before it leaves. -/
def checkStmts (env : Env) : List PStmt → List (Option SymbolId) → Check (List TStmt)
  | [], _ => return []
  | first :: rest, ids => do
    let (stmt, env) ← checkStmt env (ids.head?.join.getD 0) first
    let stmts ← checkStmts env rest ids.tail
    return stmt :: stmts

/-- The first body of a let is checked without the name of the let, and the chained ones with it. -/
def checkStmt (env : Env) (id : SymbolId) : PStmt → Check (TStmt × Env)
  | .letIn name type first chained span _ => do
    let declared ← typeOf env type
    let first ← expr env.inner first
    isLetBody name declared first
    let (env, sym) ← addLocal env name declared
    let chained ← chain env name declared chained
    return (.letIn name type first chained span sym, env)
  | .func name params returns body span _ => do
    match ((← get).get id).kind with
    | .function ids returnType _ =>
      let body ← block (env.body params ids id) body
      let bodyType ← blockValue body
      require (bodyType = returnType) (.type ⟨body.span, .returns name.text returnType bodyType⟩)
      return (.func name (Resolve.bindAll params ids) returns body span id, env)
    | other => throw (.bind ⟨name.span, .wrongKind name.text "function" other.role⟩)
  | .record name fields span _ => do
    return (.record name (Resolve.bindAll fields ((← get).fields id)) span id, env)
  | .expr value => do
    let value ← expr env value
    return (.expr value, env)

end

end Lexical

/-- Checks a module with plain lexical scoping. -/
def Module.check (m : Module .parsed) (names : NameTable) : Except CompileError Resolved := do
  let checking : Lexical.Check (List (Stmt .typed)) := do
    let (env, ids) ← Lexical.hoist (Lexical.Env.builtin names) m.stmts
    Lexical.checkStmts env m.stmts ids
  let (stmts, symbols) ← checking.run #[]
  return ⟨⟨stmts⟩, symbols⟩

end LetChain
