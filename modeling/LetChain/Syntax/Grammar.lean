import LetChain.Number.Notation
import LetChain.Syntax.Cursor

/-! The grammar, one reader for each form. Every reader takes fuel, which bounds how deep readers
call each other; the number of tokens gives enough of it. -/

namespace LetChain.Reader

abbrev PExpr := Expr .parsed
abbrev PBlock := Block .parsed
abbrev PStmt := Stmt .parsed

def typeRef : Nat → Reader TypeRef
  | 0 => unexpected
  | fuel + 1 => do
    let name ← ident
    if ← take .less then
      let args ← separated .greater (typeRef fuel) fuel #[]
      let close ← expect .greater
      return ⟨name, args, name.span.join close.span⟩
    else return ⟨name, [], name.span⟩

def binding (fuel : Nat) : Reader (Binding .parsed) := do
  let name ← ident
  let type ← typeRef fuel
  return ⟨name, type, ()⟩

def recordDecl (fuel : Nat) : Reader PStmt := do
  let start ← expect .typeKw
  let name ← ident
  let _ ← expect .leftBrace
  let fields ← separated .rightBrace (binding fuel) fuel #[]
  let close ← expect .rightBrace
  return .record name fields (start.span.join close.span) ()

/-- Any number of `.name` after an operand. A second point is an operator instead. -/
def members : Nat → PExpr → Reader PExpr
  | 0, _ => unexpected
  | fuel + 1, base => do
    let cursor ← get
    if cursor.current.kind = .dot ∧ cursor.nextKind = .identifier then
      let _ ← advance
      let field ← ident
      members fuel (.member base field () (base.span.join field.span) ())
    else return base

def asBlock : PExpr → PBlock
  | .block body _ => body
  | other => ⟨[.expr other], other.span, ()⟩

mutual

def expr : Nat → Reader PExpr
  | 0 => unexpected
  | fuel + 1 => do
    let lhs ← operand fuel
    operators fuel lhs 0

/-- Takes the operators that bind tighter than `floor`, each with its right side, which reaches as
far as operators bind tighter still. -/
def operators : Nat → PExpr → Nat → Reader PExpr
  | 0, _, _ => unexpected
  | fuel + 1, lhs, floor => do
    match ← operator? with
    | none => return lhs
    | some op =>
      if op.precedence ≤ floor then return lhs
      else
        takeOperator op
        let first ← operand fuel
        let rhs ← operators fuel first op.precedence
        operators fuel (.binary op lhs rhs (lhs.span.join rhs.span) ()) floor

def operand : Nat → Reader PExpr
  | 0 => unexpected
  | fuel + 1 => do
    let token ← peek
    let base ←
      match token.kind with
      | .number => do
        let _ ← advance
        match Number.read? token.text with
        | some value => pure (Expr.number value token.span ())
        | none => fail token.span .invalidNumber
      | .string => do
        let _ ← advance
        match token.content? with
        | some value => pure (.string value token.span ())
        | none => fail token.span .brokenText
      | .trueKw => do
        let _ ← advance
        pure (.bool true token.span ())
      | .falseKw => do
        let _ ← advance
        pure (.bool false token.span ())
      | .identifier => named fuel
      | .leftParen => do
        let _ ← advance
        let inner ← expr fuel
        let _ ← expect .rightParen
        pure inner
      | .leftBrace => do
        let body ← block fuel
        pure (.block body ())
      | .ifKw => conditional fuel
      | .foreachKw => loop fuel
      | .leftBracket => range fuel
      | _ => unexpected
    members fuel base

/-- The token after a name decides: a parenthesis makes a call, a brace a construction. -/
def named : Nat → Reader PExpr
  | 0 => unexpected
  | fuel + 1 => do
    let name ← ident
    if ← take .leftParen then
      let args ← separated .rightParen (expr fuel) fuel #[]
      let close ← expect .rightParen
      return .call name args () (name.span.join close.span) ()
    else if ← take .leftBrace then
      let args ← separated .rightBrace (expr fuel) fuel #[]
      let close ← expect .rightBrace
      return .construct name args () (name.span.join close.span) ()
    else return .named name () name.span ()

/-- `if cond then body` with or without `else body` -/
def conditional : Nat → Reader PExpr
  | 0 => unexpected
  | fuel + 1 => do
    let start ← expect .ifKw
    let cond ← expr fuel
    let _ ← expect .thenKw
    let yes := asBlock (← expr fuel)
    if ← take .elseKw then
      let no := asBlock (← expr fuel)
      return .ifElse cond yes no (start.span.join no.span) ()
    else return .ifOnly cond yes (start.span.join yes.span) ()

def loop : Nat → Reader PExpr
  | 0 => unexpected
  | fuel + 1 => do
    let start ← expect .foreachKw
    let element ← ident
    let elementType ← typeRef fuel
    let _ ← expect .inKw
    let source ← expr fuel
    let _ ← expect .doKw
    let body := asBlock (← expr fuel)
    return .foreach element elementType source body () (start.span.join body.span) ()

/-- `[first to limit]` or `[first to limit step step]` -/
def range : Nat → Reader PExpr
  | 0 => unexpected
  | fuel + 1 => do
    let start ← expect .leftBracket
    let first ← expr fuel
    let _ ← expect .toKw
    let limit ← expr fuel
    let step ← if ← take .stepKw then some <$> expr fuel else pure none
    let close ← expect .rightBracket
    return .range first limit step (start.span.join close.span) ()

def block : Nat → Reader PBlock
  | 0 => unexpected
  | fuel + 1 => do
    let start ← expect .leftBrace
    let stmts ← stmtsUntilBrace fuel #[]
    let close ← expect .rightBrace
    return ⟨stmts, start.span.join close.span, ()⟩

def stmtsUntilBrace : Nat → Array PStmt → Reader (List PStmt)
  | 0, _ => unexpected
  | fuel + 1, stmts => do
    if ← isAt .rightBrace then return stmts.toList
    else
      let stmt ← stmt fuel
      stmtsUntilBrace fuel (stmts.push stmt)

def stmt : Nat → Reader PStmt
  | 0 => unexpected
  | fuel + 1 => do
    match (← peek).kind with
    | .funcKw => function fuel
    | .typeKw => recordDecl fuel
    | .letKw => letStmt fuel
    | _ => return .expr (← expr fuel)

def function : Nat → Reader PStmt
  | 0 => unexpected
  | fuel + 1 => do
    let start ← expect .funcKw
    let name ← ident
    let _ ← expect .leftParen
    let params ← separated .rightParen (binding fuel) fuel #[]
    let _ ← expect .rightParen
    let _ ← expect .arrow
    let returns ← typeRef fuel
    let body ← block fuel
    return .func name params returns body (start.span.join body.span) ()

/-- `let name type = body where body ...` -/
def letStmt : Nat → Reader PStmt
  | 0 => unexpected
  | fuel + 1 => do
    let start ← expect .letKw
    let name ← ident
    let type ← typeRef fuel
    let _ ← expect .equals
    let first ← expr fuel
    if first.isSelfAssigning then fail first.span .selfAssigningFirstBody
    else
      let (chained, span) ← chain fuel #[] (start.span.join first.span)
      return .letIn name type first chained span ()

def chain : Nat → Array PExpr → Span → Reader (List PExpr × Span)
  | 0, _, _ => unexpected
  | fuel + 1, bodies, span => do
    if ← take .whereKw then
      let body ← expr fuel
      chain fuel (bodies.push body) (span.join body.span)
    else return (bodies.toList, span)

end

def declarations : Nat → Array PStmt → Reader (List PStmt)
  | 0, _ => unexpected
  | fuel + 1, stmts => do
    let token ← peek
    match token.kind with
    | .funcKw =>
      let stmt ← function fuel
      declarations fuel (stmts.push stmt)
    | .typeKw =>
      let stmt ← recordDecl fuel
      declarations fuel (stmts.push stmt)
    | .eof => return stmts.toList
    | other => fail token.span (.expectedDeclaration other)

end LetChain.Reader
