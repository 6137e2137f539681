import LetChain.Code.Program
import LetChain.Typing.Symbol
import Std.Data.HashMap
import Std.Data.HashSet

/-! A first walk over a typed module finds every function and record, wherever it is declared, and
gives each its number. -/

namespace LetChain

/-- A function under the name that it has in the program. -/
structure LaidFunction where
  name : String
  params : Nat
  body : Block .typed

structure Layout where
  functions : Array LaidFunction
  functionIds : Std.HashMap SymbolId Nat
  records : Array RecordLayout
  recordIds : Std.HashMap SymbolId Nat
  taken : Std.HashSet String

namespace Layout

abbrev Lay := Except (Halt LowerError)

/-- Functions and records are numbered in 32 bits. -/
def maxIds : Nat := 4294967296

def empty : Layout := ⟨#[], ∅, #[], ∅, Std.HashSet.emptyWithCapacity.insert Program.entryName⟩

def numbered (taken : Std.HashSet String) (base : String) : Nat → Nat → String
  | 0, k => s!"{base}#{k}"
  | fuel + 1, k =>
    let name := s!"{base}#{k}"
    if taken.contains name then numbered taken base fuel (k + 1) else name

/-- The name itself if it is free, or else the first free numbered one. As many tries suffice as names
are taken, because `base` is one of those. -/
def freeName (taken : Std.HashSet String) (base : String) : String :=
  if taken.contains base then numbered taken base taken.size 2 else base

def qualified : Option String → String → String
  | some outer, name => outer ++ "." ++ name
  | none, name => name

def symbol (symbols : Symbols) (id : SymbolId) : Lay Symbol :=
  match symbols[id]? with
  | some found => .ok found
  | none => .error (.fault (.unknownSymbol id))

def names (symbols : Symbols) (ids : List SymbolId) : Lay (List String) :=
  ids.mapM fun id => (symbol symbols id).map Symbol.name

def addFunction (layout : Layout) (outer : Option String) (name : String) (params : Nat)
    (body : Block .typed) (sym : SymbolId) : Lay (Layout × String) :=
  let ⟨functions, functionIds, records, recordIds, taken⟩ := layout
  let name := freeName taken (qualified outer name)
  let id := functions.size
  if id < maxIds then
    .ok (⟨functions.push ⟨name, params, body⟩, functionIds.insert sym id, records, recordIds,
      taken.insert name⟩, name)
  else .error (.error (.tooMany "functions"))

def addRecord (symbols : Symbols) (layout : Layout) (name : String) (sym : SymbolId) :
    Lay Layout := do
  let fields ← names symbols (← symbol symbols sym).fields
  let ⟨functions, functionIds, records, recordIds, taken⟩ := layout
  let id := records.size
  if fields.length > 65536 then throw (.error (.tooMany "fields"))
  else if id < maxIds then
    return ⟨functions, functionIds, records.push ⟨name, fields, List.range fields.length⟩,
      recordIds.insert sym id, taken⟩
  else throw (.error (.tooMany "records"))

mutual

def addExpr (symbols : Symbols) (outer : Option String) (layout : Layout) :
    Expr .typed → Lay Layout
  | .number .. | .string .. | .bool .. | .named .. => .ok layout
  | .binary _ lhs rhs _ _ => do
    let layout ← addExpr symbols outer layout lhs
    addExpr symbols outer layout rhs
  | .range first limit step _ _ => do
    let layout ← addExpr symbols outer layout first
    let layout ← addExpr symbols outer layout limit
    match step with
    | some step => addExpr symbols outer layout step
    | none => return layout
  | .call _ args _ _ _ => addExprs symbols outer layout args
  | .construct _ args _ _ _ => addExprs symbols outer layout args
  | .member base _ _ _ _ => addExpr symbols outer layout base
  | .ifElse cond yes no _ _ => do
    let layout ← addExpr symbols outer layout cond
    let layout ← addBlock symbols outer layout yes
    addBlock symbols outer layout no
  | .ifOnly cond yes _ _ => do
    let layout ← addExpr symbols outer layout cond
    addBlock symbols outer layout yes
  | .foreach _ _ source body _ _ _ => do
    let layout ← addExpr symbols outer layout source
    addBlock symbols outer layout body
  | .block body _ => addBlock symbols outer layout body

def addExprs (symbols : Symbols) (outer : Option String) (layout : Layout) :
    List (Expr .typed) → Lay Layout
  | [] => .ok layout
  | first :: rest => do
    let layout ← addExpr symbols outer layout first
    addExprs symbols outer layout rest

def addBlock (symbols : Symbols) (outer : Option String) (layout : Layout) :
    Block .typed → Lay Layout
  | ⟨stmts, _, _⟩ => addStmts symbols outer layout stmts

def addStmts (symbols : Symbols) (outer : Option String) (layout : Layout) :
    List (Stmt .typed) → Lay Layout
  | [] => .ok layout
  | first :: rest => do
    let layout ← addStmt symbols outer layout first
    addStmts symbols outer layout rest

def addStmt (symbols : Symbols) (outer : Option String) (layout : Layout) :
    Stmt .typed → Lay Layout
  | .letIn _ _ first chained _ _ => do
    let layout ← addExpr symbols outer layout first
    addExprs symbols outer layout chained
  | .func name params _ body _ sym => do
    let (layout, name) ← addFunction layout outer name.text params.length body sym
    addBlock symbols (some name) layout body
  | .record name _ _ sym => addRecord symbols layout name.text sym
  | .expr value => addExpr symbols outer layout value

end

def unresolved {α : Type} (symbols : Symbols) (sym : SymbolId) : Lay α := do
  throw (.error (.unresolved (← symbol symbols sym).name))

def functionId (layout : Layout) (symbols : Symbols) (sym : SymbolId) : Lay Nat :=
  match layout.functionIds[sym]? with
  | some id => .ok id
  | none => unresolved symbols sym

def recordId (layout : Layout) (symbols : Symbols) (sym : SymbolId) : Lay Nat :=
  match layout.recordIds[sym]? with
  | some id => .ok id
  | none => unresolved symbols sym

end Layout

end LetChain
