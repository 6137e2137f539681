import LetChain.Lowering.Layout

/-! Stack code of function bodies. -/

namespace LetChain

structure Lowering where
  draft : Draft
  slots : Std.HashMap SymbolId Nat

abbrev Lower := StateT Lowering Layout.Lay

namespace Lower

def emit (instr : Instr) : Lower Unit :=
  modify fun state => { state with draft := state.draft.emit instr }

def newLabel : Lower Label := fun ⟨draft, slots⟩ =>
  match draft.newLabel with
  | .ok (label, draft) => .ok (label, ⟨draft, slots⟩)
  | .error error => .error (.error error)

def mark (label : Label) : Lower Unit := fun ⟨draft, slots⟩ =>
  match draft.mark label with
  | .ok draft => .ok ((), ⟨draft, slots⟩)
  | .error fault => .error (.fault fault)

def newLocal (sym : SymbolId) : Lower Nat := fun ⟨draft, slots⟩ =>
  match draft.newLocal with
  | .ok (slot, draft) => .ok (slot, ⟨draft, slots.insert sym slot⟩)
  | .error error => .error (.error error)

def newIterator : Lower Nat := fun ⟨draft, slots⟩ =>
  match draft.newIterator with
  | .ok (slot, draft) => .ok (slot, ⟨draft, slots⟩)
  | .error error => .error (.error error)

def equality (negated : Bool) : Ty → Except LowerError BinaryInstr
  | .number | .boolean => .ok (if negated then .ne else .eq)
  | .string => .ok (if negated then .strNe else .strEq)
  | .record .. => .ok (if negated then .refNe else .refEq)
  | other => .error (.noEquality other)

def binaryInstr (op : Operator) (ty : Ty) : Except LowerError BinaryInstr :=
  match op with
  | .or => .ok .or
  | .and => .ok .and
  | .eq => equality false ty
  | .ne => equality true ty
  | .greater => .ok .gt
  | .less => .ok .lt
  | .concat => .ok .concat
  | .add => .ok .add
  | .sub => .ok .sub
  | .mul => .ok .mul
  | .div => .ok .div
  | .rem => .ok .rem

def boxOperand (op : Operator) (ty : Ty) : Lower Unit :=
  if op = .concat ∧ ty = .number then emit .box else pure ()

def load (symbols : Symbols) (sym : SymbolId) : Lower Unit := do
  match (← Layout.symbol symbols sym).kind with
  | .param index => emit (.loadParam index)
  | _ =>
    match (← get).slots[sym]? with
    | some slot => emit (.loadLocal slot)
    | none => Layout.unresolved symbols sym

def loadField (layout : Layout) (symbols : Symbols) (sym : SymbolId) : Lower Unit := do
  match (← Layout.symbol symbols sym).kind with
  | .field record index => emit (.loadField (← layout.recordId symbols record) index)
  | _ => Layout.unresolved symbols sym

def keepIf (kept : Bool) : Lower Unit := if kept then pure () else emit .pop

mutual

def lowerExpr (layout : Layout) (symbols : Symbols) : Expr .typed → Lower Unit
  | .number value _ _ => emit (.pushNumber value)
  | .string value _ _ => emit (.pushText value)
  | .bool value _ _ => emit (.pushBool value)
  | .named _ sym _ _ => load symbols sym
  | .binary op lhs rhs _ _ => do
    let instr ← ((binaryInstr op lhs.ty).mapError Halt.error : Layout.Lay _)
    lowerExpr layout symbols lhs
    boxOperand op lhs.ty
    lowerExpr layout symbols rhs
    boxOperand op rhs.ty
    emit (.binary instr)
  | .range first limit step _ _ => do
    lowerExpr layout symbols first
    lowerExpr layout symbols limit
    lowerStep layout symbols step
    emit .generateList
  | .call _ args sym _ _ => do
    lowerExprs layout symbols args
    emit (.call (← layout.functionId symbols sym))
  | .construct _ args sym _ _ => do
    lowerExprs layout symbols args
    emit (.construct (← layout.recordId symbols sym))
  | .member base _ sym _ _ => do
    lowerExpr layout symbols base
    loadField layout symbols sym
  | .ifElse cond yes no _ _ => do
    let otherwise ← newLabel
    let done ← newLabel
    lowerExpr layout symbols cond
    emit (.branchIfFalse otherwise)
    lowerBlock layout symbols yes
    emit (.branch done)
    mark otherwise
    lowerBlock layout symbols no
    mark done
  | .ifOnly .. => throw (.error .misplacedSelfAssignment)
  | .foreach .. => throw (.error .misplacedSelfAssignment)
  | .block body _ => lowerBlock layout symbols body

def lowerStep (layout : Layout) (symbols : Symbols) : Option (Expr .typed) → Lower Unit
  | some step => lowerExpr layout symbols step
  | none => emit (.pushNumber 1)

def lowerExprs (layout : Layout) (symbols : Symbols) : List (Expr .typed) → Lower Unit
  | [] => return ()
  | first :: rest => do
    lowerExpr layout symbols first
    lowerExprs layout symbols rest

/-- Assigns the chained bodies of a let to its slot in order. A body with a condition assigns only if
that holds, and a loop assigns once per element. -/
def lowerChain (layout : Layout) (symbols : Symbols) (slot : Nat) :
    List (Expr .typed) → Lower Unit
  | [] => return ()
  | .ifOnly cond yes _ _ :: rest => do
    let done ← newLabel
    lowerExpr layout symbols cond
    emit (.branchIfFalse done)
    lowerBlock layout symbols yes
    emit (.storeLocal slot)
    mark done
    lowerChain layout symbols slot rest
  | .foreach _ _ source body sym _ _ :: rest => do
    let iterator ← newIterator
    let element ← newLocal sym
    let top ← newLabel
    let exit ← newLabel
    lowerExpr layout symbols source
    emit (.acquire iterator)
    mark top
    emit (.advance iterator exit)
    emit (.storeLocal element)
    lowerBlock layout symbols body
    emit (.storeLocal slot)
    emit (.branch top)
    mark exit
    emit (.release iterator)
    lowerChain layout symbols slot rest
  | body :: rest => do
    lowerExpr layout symbols body
    emit (.storeLocal slot)
    lowerChain layout symbols slot rest

def lowerBlock (layout : Layout) (symbols : Symbols) : Block .typed → Lower Unit
  | ⟨stmts, _, _⟩ => lowerStmts layout symbols stmts

/-- Leaves the value of the last statement on the stack if it is an expression, and no other value. -/
def lowerStmts (layout : Layout) (symbols : Symbols) : List (Stmt .typed) → Lower Unit
  | [] => return ()
  | .letIn _ _ first chained _ sym :: rest => do
    let slot ← newLocal sym
    lowerExpr layout symbols first
    emit (.storeLocal slot)
    lowerChain layout symbols slot chained
    lowerStmts layout symbols rest
  | .func .. :: rest => lowerStmts layout symbols rest
  | .record .. :: rest => lowerStmts layout symbols rest
  | .expr value :: rest => do
    lowerExpr layout symbols value
    keepIf rest.isEmpty
    lowerStmts layout symbols rest

end

end Lower

def LaidFunction.lower (layout : Layout) (symbols : Symbols) (function : LaidFunction) :
    Layout.Lay Routine :=
  if function.params > 65535 then .error (.error (.tooMany "parameters"))
  else do
    let writing : Lower Unit := do
      Lower.lowerBlock layout symbols function.body
      Lower.emit .ret
    let (_, state) ← writing.run ⟨.start function.name function.params, ∅⟩
    state.draft.finish.mapError Halt.fault

end LetChain
