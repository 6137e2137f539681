/-! Instructions of the stack machine. -/

namespace LetChain

abbrev Label := Nat

/-- Instructions that replace two operands by one result. `eq` and `ne` compare numbers or booleans,
and `refEq` and `refNe` compare records by identity. -/
inductive BinaryInstr where
  | add | sub | mul | div | rem
  | gt | lt | eq | ne
  | and | or
  | concat | strEq | strNe
  | refEq | refNe
  deriving DecidableEq

def BinaryInstr.mnemonic : BinaryInstr → String
  | add => "add"
  | sub => "sub"
  | mul => "mul"
  | div => "div"
  | rem => "rem"
  | gt => "gt"
  | lt => "lt"
  | eq => "eq"
  | ne => "ne"
  | and => "and"
  | or => "or"
  | concat => "concat"
  | strEq => "str.eq"
  | strNe => "str.ne"
  | refEq => "ref.eq"
  | refNe => "ref.ne"

def BinaryInstr.all : List BinaryInstr :=
  [add, sub, mul, div, rem, gt, lt, eq, ne, and, or, concat, strEq, strNe, refEq, refNe]

/-- Routines, records, parameters, locals and iterators are named by number. `construct` and `call`
take one operand per field or parameter, the last on top. `generateList` takes a step, a limit and a
first number from the top. `advance` pushes the next element, or goes to `exit` when there is none. -/
inductive Instr where
  | pushNumber (value : Float)
  | pushText (value : String)
  | pushBool (value : Bool)
  | loadParam (index : Nat)
  | loadLocal (slot : Nat)
  | storeLocal (slot : Nat)
  | loadField (record index : Nat)
  | construct (record : Nat)
  | call (routine : Nat)
  | branch (target : Label)
  | branchIfFalse (target : Label)
  | mark (label : Label)
  | binary (op : BinaryInstr)
  | box
  | pop
  | generateList
  | writeLine
  | acquire (slot : Nat)
  | advance (slot : Nat) (exit : Label)
  | release (slot : Nat)
  | ret

end LetChain
