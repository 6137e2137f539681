import LetChain.Code.Program
import LetChain.Number.Notation
import LetChain.Text.Quoted

/-! The text of a program. References are printed by name. -/

namespace LetChain

def Label.text (label : Label) : String := s!"L{label}"

namespace Program

def instrText (program : Program) : Instr → Except Fault String
  | .pushNumber value => .ok ("push.num " ++ Number.text value)
  | .pushText value => .ok ("push.str " ++ Text.quoted value)
  | .pushBool value => .ok s!"push.bool {value}"
  | .loadParam index => .ok s!"load.param {index}"
  | .loadLocal slot => .ok s!"load.local {slot}"
  | .storeLocal slot => .ok s!"store.local {slot}"
  | .loadField record index => do
    let layout ← program.record record
    match layout.fields[index]? with
    | some field => return s!"load.field {layout.name}.{field}"
    | none => throw (.unknownField index)
  | .construct record => do return "construct " ++ (← program.record record).name
  | .call routine => do return "call " ++ (← program.routine routine).name
  | .branch target => .ok s!"br {Label.text target}"
  | .branchIfFalse target => .ok s!"br.false {Label.text target}"
  | .mark label => .ok s!"{Label.text label}:"
  | .binary op => .ok op.mnemonic
  | .box => .ok "box"
  | .pop => .ok "pop"
  | .generateList => .ok "intrinsic generate_list"
  | .writeLine => .ok "intrinsic write_line"
  | .acquire slot => .ok s!"iter.acquire {slot}"
  | .advance slot exit => .ok s!"iter.advance {slot} {Label.text exit}"
  | .release slot => .ok s!"iter.release {slot}"
  | .ret => .ok "ret"

def instrLine (program : Program) (instr : Instr) : Except Fault String := do
  let text ← program.instrText instr
  match instr with
  | .mark _ => return text ++ "\n"
  | _ => return "    " ++ text ++ "\n"

def routineHead (routine : Routine) : String :=
  s!".func {routine.name} params={routine.params} locals={routine.locals} " ++
    s!"iterators={routine.iterators}\n"

def routineText (program : Program) (routine : Routine) : Except Fault String := do
  let lines ← routine.code.toList.mapM program.instrLine
  return routineHead routine ++ String.join lines ++ "\n"

def recordLine (layout : RecordLayout) : String :=
  ".record " ++ layout.name ++ " \x7b " ++ String.intercalate " " layout.fields ++ " \x7d\n"

def recordsText (records : List RecordLayout) : String :=
  if records.isEmpty then "" else String.join (records.map recordLine) ++ "\n"

def listing (program : Program) : Except Fault String := do
  let routines ← (program.routines.toList ++ [program.entry]).mapM program.routineText
  return recordsText program.records.toList ++ String.join routines

end Program

end LetChain
