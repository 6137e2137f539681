import LetChain.Code.Routine

/-! Programs for the stack machine. -/

namespace LetChain

/-- `order` gives for each operand of a construction the field that it fills. -/
structure RecordLayout where
  name : String
  fields : List String
  order : List Nat

structure Program where
  routines : Array Routine
  records : Array RecordLayout
  entry : Routine

namespace Program

def routine (program : Program) (index : Nat) : Except Fault Routine :=
  match program.routines[index]? with
  | some routine => .ok routine
  | none => .error (.unknownRoutine index)

def record (program : Program) (index : Nat) : Except Fault RecordLayout :=
  match program.records[index]? with
  | some layout => .ok layout
  | none => .error (.unknownRecord index)

def entryName : String := "Execute"

def entryOf (main : Nat) : Routine :=
  ⟨entryName, 0, 0, 0, #[.call main, .writeLine, .ret], #[]⟩

end Program

end LetChain
