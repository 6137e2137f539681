import LetChain.Code.Instr
import LetChain.Machine.Error
import LetChain.Machine.Value
import LetChain.Number.Remainder

/-! What the binary instructions do with their operands. -/

namespace LetChain

def RuntimeError.mismatch (instr expected : String) (actual : Value) : RuntimeError :=
  .typeMismatch instr expected actual.kind

namespace BinaryInstr

def expected : BinaryInstr → String
  | and | or => "bool"
  | refEq | refNe => "record"
  | concat | strEq | strNe => "string"
  | _ => "number"

def textOperand (instr : String) : Value → Except RuntimeError String
  | .text value => .ok value
  | .boxed inner => .ok inner.render
  | other => .error (.unboxed instr other.kind)

def blame (op : BinaryInstr) (lhs rhs : Value) : RuntimeError :=
  .mismatch op.mnemonic op.expected (if lhs.kind = op.expected then rhs else lhs)

def apply (op : BinaryInstr) (lhs rhs : Value) : Except RuntimeError Value :=
  match op, lhs, rhs with
  | add, .number a, .number b => .ok (.number (a + b))
  | sub, .number a, .number b => .ok (.number (a - b))
  | mul, .number a, .number b => .ok (.number (a * b))
  | div, .number a, .number b => .ok (.number (a / b))
  | rem, .number a, .number b => .ok (.number (Number.remainder a b))
  | gt, .number a, .number b => .ok (.bool (b < a))
  | lt, .number a, .number b => .ok (.bool (a < b))
  | eq, .number a, .number b => .ok (.bool (a == b))
  | ne, .number a, .number b => .ok (.bool (a != b))
  | eq, .bool a, .bool b => .ok (.bool (a == b))
  | ne, .bool a, .bool b => .ok (.bool (a != b))
  | and, .bool a, .bool b => .ok (.bool (a && b))
  | or, .bool a, .bool b => .ok (.bool (a || b))
  | concat, lhs, rhs => do
    let left ← textOperand "concat" lhs
    let right ← textOperand "concat" rhs
    return .text (left ++ right)
  | strEq, lhs, rhs => do
    let left ← textOperand "str.eq" lhs
    let right ← textOperand "str.eq" rhs
    return .bool (left == right)
  | strNe, lhs, rhs => do
    let left ← textOperand "str.ne" lhs
    let right ← textOperand "str.ne" rhs
    return .bool (left != right)
  | refEq, .record a _ _ _, .record b _ _ _ => .ok (.bool (a = b))
  | refNe, .record a _ _ _, .record b _ _ _ => .ok (.bool (a ≠ b))
  | op, lhs, rhs => .error (op.blame lhs rhs)

end BinaryInstr

end LetChain
