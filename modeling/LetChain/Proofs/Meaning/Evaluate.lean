import LetChain.Machine.Range
import LetChain.Machine.State
import LetChain.Proofs.Typing.Judgment

/-! What typed modules mean: an evaluator that walks the tree, without code, stack or slots. -/

namespace LetChain

def Globals.names (globals : Globals) (ids : List SymbolId) : List String :=
  ids.map fun id => (globals.symbol id).name

namespace Meaning

/-- Why an evaluation ends without a value: with an error that a run may report, or because it meets
a value that has no place there. -/
inductive Failure where
  | error (error : RuntimeError)
  | stuck

/-- The locals of the current call that have a value, and the number of records made so far. -/
structure Store where
  locals : SymbolId → Option Value
  made : Nat

abbrev Eval := StateT Store (Except Failure)

/-- What a body is evaluated with. A call takes arguments and the number of records made, and gives a
value and the number of records then. -/
structure Context where
  globals : Globals
  limits : Limits
  args : List Value
  call : SymbolId → List Value → Nat → Except Failure (Value × Nat)

def orStuck {α : Type} : Option α → Eval α
  | some a => return a
  | none => throw .stuck

/-! ### Operators -/

def arithmetic? (f : Float → Float → Float) : Value → Value → Option Value
  | .number a, .number b => some (.number (f a b))
  | _, _ => none

def comparison? (f : Float → Float → Bool) : Value → Value → Option Value
  | .number a, .number b => some (.bool (f a b))
  | _, _ => none

def logical? (f : Bool → Bool → Bool) : Value → Value → Option Value
  | .bool a, .bool b => some (.bool (f a b))
  | _, _ => none

/-- Numbers become text as they are written. Of other values only text has a text, and boxed values,
which no program makes but a caller may pass. -/
def textOf? (ty : Ty) (value : Value) : Option String :=
  match ty, value with
  | .number, value => some value.render
  | _, .text text => some text
  | _, .boxed inner => some inner.render
  | _, _ => none

/-- Equality of two values of a type: of records by identity, of others by content. (No program that
compiles compares sequences.) -/
def equal? (ty : Ty) (lhs rhs : Value) : Option Bool :=
  match ty with
  | .number | .boolean =>
    match lhs, rhs with
    | .number a, .number b => some (a == b)
    | .bool a, .bool b => some (a == b)
    | _, _ => none
  | .string =>
    match textOf? .string lhs, textOf? .string rhs with
    | some a, some b => some (a == b)
    | _, _ => none
  | .record _ _ =>
    match lhs, rhs with
    | .record a _ _ _, .record b _ _ _ => some (a = b)
    | _, _ => none
  | _ => some (lhs.same rhs)

/-- Both operands are evaluated before, also those of `and` and `or`. -/
def operate? (op : Operator) (lhsTy rhsTy : Ty) (lhs rhs : Value) : Option Value :=
  match op with
  | .add => arithmetic? (· + ·) lhs rhs
  | .sub => arithmetic? (· - ·) lhs rhs
  | .mul => arithmetic? (· * ·) lhs rhs
  | .div => arithmetic? (· / ·) lhs rhs
  | .rem => arithmetic? Number.remainder lhs rhs
  | .greater => comparison? (fun a b => b < a) lhs rhs
  | .less => comparison? (fun a b => a < b) lhs rhs
  | .and => logical? (· && ·) lhs rhs
  | .or => logical? (· || ·) lhs rhs
  | .eq => (equal? lhsTy lhs rhs).map .bool
  | .ne => (equal? lhsTy lhs rhs).map fun same => .bool !same
  | .concat =>
    match textOf? lhsTy lhs, textOf? rhsTy rhs with
    | some left, some right => some (.text (left ++ right))
    | _, _ => none

/-! ### Parts of expressions -/

def read (context : Context) (sym : SymbolId) : Eval Value :=
  match (context.globals.symbol sym).kind with
  | .param index => orStuck context.args[index]?
  | _ => do orStuck ((← get).locals sym)

def assign (sym : SymbolId) (value : Value) : Eval Unit :=
  modify fun store =>
    { store with locals := fun other => if other = sym then some value else store.locals other }

def rangeOf (limits : Limits) (first limit step : Value) : Eval Value :=
  match step, limit, first with
  | .number step, .number limit, .number first =>
    match Range.generate first limit step limits.maxRangeLength with
    | .ok items => return .seq items
    | .error error => throw (.error error)
  | _, _, _ => throw .stuck

def invoke (context : Context) (sym : SymbolId) (args : List Value) : Eval Value := fun store => do
  let (value, made) ← context.call sym args store.made
  return (value, { store with made := made })

def construct (globals : Globals) (sym : SymbolId) (values : List Value) : Eval Value :=
  modifyGet fun store =>
    let record := globals.symbol sym
    (.record (.made store.made) record.name (globals.names record.fields) values,
      { store with made := store.made + 1 })

def field? (globals : Globals) (sym : SymbolId) (value : Value) : Option Value :=
  match value, (globals.symbol sym).kind with
  | .record _ _ _ values, .field _ index => values[index]?
  | _, _ => none

def branch {α : Type} (cond : Value) (yes no : Eval α) : Eval α :=
  match cond with
  | .bool true => yes
  | .bool false => no
  | _ => throw .stuck

def items? : Value → Option (List Value)
  | .seq items => some items
  | _ => none

/-! ### Trees -/

mutual

def evalExpr (context : Context) : Expr .typed → Eval Value
  | .number value _ _ => return .number value
  | .string value _ _ => return .text value
  | .bool value _ _ => return .bool value
  | .named _ sym _ _ => read context sym
  | .binary op lhs rhs _ _ => do
    let left ← evalExpr context lhs
    let right ← evalExpr context rhs
    orStuck (operate? op lhs.ty rhs.ty left right)
  | .range first limit none _ _ => do
    let first ← evalExpr context first
    let limit ← evalExpr context limit
    rangeOf context.limits first limit (.number 1)
  | .range first limit (some step) _ _ => do
    let first ← evalExpr context first
    let limit ← evalExpr context limit
    let step ← evalExpr context step
    rangeOf context.limits first limit step
  | .call _ args sym _ _ => do
    let args ← evalExprs context args
    invoke context sym args
  | .construct _ args sym _ _ => do
    let values ← evalExprs context args
    construct context.globals sym values
  | .member base _ sym _ _ => do
    let record ← evalExpr context base
    orStuck (field? context.globals sym record)
  | .ifElse cond yes no _ _ => do
    let cond ← evalExpr context cond
    branch cond (evalBlock context yes) (evalBlock context no)
  | .ifOnly .. => throw .stuck
  | .foreach .. => throw .stuck
  | .block body _ => evalBlock context body

def evalExprs (context : Context) : List (Expr .typed) → Eval (List Value)
  | [] => return []
  | first :: rest => do
    let value ← evalExpr context first
    let values ← evalExprs context rest
    return value :: values

/-- Assigns chained bodies to a let in order: a conditional one if its condition holds, and a loop
once per element of its sequence, which is evaluated once. -/
def evalChain (context : Context) (target : SymbolId) : List (Expr .typed) → Eval Unit
  | [] => return ()
  | .ifOnly cond yes _ _ :: rest => do
    let cond ← evalExpr context cond
    branch cond (evalBlock context yes >>= assign target) (pure ())
    evalChain context target rest
  | .foreach _ _ source body element _ _ :: rest => do
    let source ← evalExpr context source
    let items ← orStuck (items? source)
    items.forM fun item => do
      assign element item
      let value ← evalBlock context body
      assign target value
    evalChain context target rest
  | body :: rest => do
    let value ← evalExpr context body
    assign target value
    evalChain context target rest

def evalBlock (context : Context) : Block .typed → Eval Value
  | ⟨stmts, _, _⟩ => evalStmts context stmts

def evalStmts (context : Context) : List (Stmt .typed) → Eval Value
  | [] => throw .stuck
  | .letIn _ _ first chained _ sym :: rest => do
    let value ← evalExpr context first
    assign sym value
    evalChain context sym chained
    evalStmts context rest
  | .func .. :: rest => evalStmts context rest
  | .record .. :: rest => evalStmts context rest
  | .expr value :: rest => do
    let value ← evalExpr context value
    if rest.isEmpty then return value else evalStmts context rest

end

theorem evalChain_cons (context : Context) (target : SymbolId) {body : Expr .typed}
    {rest : List (Expr .typed)} (plain : body.isSelfAssigning = false) :
    evalChain context target (body :: rest) = (do
      let value ← evalExpr context body
      assign target value
      evalChain context target rest) := by
  rw [evalChain]
  · rintro _ _ _ _ rfl
    cases plain
  · rintro _ _ _ _ _ _ _ rfl
    cases plain

/-- Calls a function in a fresh environment, with `levels` levels of calls left. -/
def callFunction (globals : Globals) (limits : Limits) :
    Nat → SymbolId → List Value → Nat → Except Failure (Value × Nat)
  | 0, _, _, _ => .error (.error (.callDepthExceeded limits.maxCallDepth))
  | levels + 1, sym, args, made =>
    match globals.functions.find? (·.sym = sym) with
    | none => .error .stuck
    | some function => do
      let context := ⟨globals, limits, args, callFunction globals limits levels⟩
      let (value, store) ← evalBlock context function.body ⟨fun _ => none, made⟩
      return (value, store.made)

def topLevel? (m : Module .typed) (name : String) : Option SymbolId :=
  m.stmts.findSome? fun stmt =>
    match stmt with
    | .func ident _ _ _ _ sym => if ident.text = name then some sym else none
    | _ => none

/-- The text that a module writes: the value of its main function on a line. The entry counts as one
level of calls. It starts when `depth` levels are in use and `made` records have been made. -/
def evaluate (resolved : Resolved) (limits : Limits) (depth made : Nat) :
    Except Failure String :=
  if limits.maxCallDepth ≤ depth then .error (.error (.callDepthExceeded limits.maxCallDepth))
  else
    match topLevel? resolved.module "Main" with
    | none => .error .stuck
    | some main => do
      let levels := limits.maxCallDepth - depth - 1
      let (value, _) ← callFunction resolved.globals limits levels main [] made
      return value.render ++ "\n"

end Meaning

end LetChain
