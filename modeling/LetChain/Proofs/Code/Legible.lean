import LetChain.Code.Listing
import LetChain.Proofs.Machine.Lockstep
import LetChain.Proofs.Number.Legible
import LetChain.Proofs.Text.Legible

/-! What can be read from a listing. It shows routines and records by name, so it determines a program,
numbers of records apart, as long as names tell them apart. -/

namespace LetChain

open Text (Ended ended_injective flatten_injective repr_injective notMem_repr)

def Unbroken (word : String) : Prop := ' ' ∉ word.toList ∧ '\n' ∉ word.toList

structure RecordLayout.Legible (layout : RecordLayout) : Prop where
  name : Unbroken layout.name
  plain : '.' ∉ layout.name.toList
  fields : ∀ field ∈ layout.fields, Unbroken field ∧ field ≠ ""
  distinct : layout.fields.Nodup
  order : layout.order = List.range layout.fields.length

theorem RecordLayout.Legible.eq_of_fields {layout layout' : RecordLayout} (legible : layout.Legible)
    (legible' : layout'.Legible) (names : layout.name = layout'.name)
    (fields : layout.fields = layout'.fields) : layout = layout' := by
  have order : layout.order = layout'.order := by rw [legible.order, legible'.order, fields]
  cases layout
  cases layout'
  congr

structure Routine.Legible (routine : Routine) : Prop where
  name : Unbroken routine.name
  marks : ∀ (label : Label) (pc : Nat),
    routine.labels[label]? = some pc ↔ routine.code[pc]? = some (.mark label)

structure Program.Legible (program : Program) : Prop where
  routines : ∀ routine ∈ program.routines, routine.Legible
  entry : program.entry.Legible
  distinct : (program.routines.toList.map Routine.name).Nodup
  records : ∀ layout ∈ program.records, layout.Legible

/-- Records that share a name have the same fields. -/
def Program.Unambiguous (program : Program) : Prop :=
  ∀ layout ∈ program.records, ∀ layout' ∈ program.records,
    layout.name = layout'.name → layout.fields = layout'.fields

namespace Program

/-! ### Heads -/

theorem recordLine_toList (layout : RecordLayout) : (recordLine layout).toList =
    ['.', 'r', 'e', 'c', 'o', 'r', 'd', ' '] ++ (layout.name.toList ++ ' ' :: '\x7b' :: ' ' ::
      ((String.intercalate " " layout.fields).toList ++ [' ', '\x7d', '\n'])) := by
  rw [recordLine]
  simp

/-- What is listed of fields, with a blank after each. A blank stands there for no fields at all. -/
def fieldWords (fields : List String) : List (List Char) :=
  if fields = [] then [[' ']] else fields.map (·.toList ++ [' '])

theorem fieldWords_injective {fields fields' : List String} (nonempty : ∀ field ∈ fields, field ≠ "")
    (nonempty' : ∀ field ∈ fields', field ≠ "") (same : fieldWords fields = fieldWords fields') :
    fields = fields' := by
  have apart {fields : List String} (nonempty : ∀ field ∈ fields, field ≠ "") :
      fields.map (·.toList ++ [' ']) ≠ [[' ']] := by
    intro eq
    obtain ⟨field, rfl, blank⟩ := List.map_eq_singleton_iff.mp eq
    have empty : field.toList = [] := by simpa using blank
    exact nonempty field List.mem_cons_self (String.toList_eq_nil_iff.mp empty)
  simp only [fieldWords] at same
  split at same
  case isTrue none =>
    split at same
    case isTrue none' => exact none.trans none'.symm
    case isFalse => exact (apart nonempty' same.symm).elim
  case isFalse =>
    split at same
    case isTrue => exact (apart nonempty same).elim
    case isFalse =>
      exact List.map_injective_iff.mpr
        (fun _ _ eq => String.toList_inj.mp (List.append_cancel_right eq)) same

theorem intercalate_toList (fields : List String) :
    (String.intercalate " " fields).toList ++ [' '] = (fieldWords fields).flatten := by
  have blank : " ".toList = [' '] := rfl
  induction fields with
  | nil => simp [fieldWords]
  | cons field rest ih =>
    cases rest with
    | nil => simp [fieldWords]
    | cons next others =>
      rw [String.intercalate_cons_cons, String.toList_append, String.toList_append,
        List.append_assoc, ih, blank]
      rfl

theorem recordLine_injective {layout layout' : RecordLayout} (legible : layout.Legible)
    (legible' : layout'.Legible) (same : recordLine layout = recordLine layout') :
    layout = layout' := by
  have chars := congrArg String.toList same
  rw [recordLine_toList, recordLine_toList] at chars
  obtain ⟨names, rest⟩ := ended_injective legible.name.1 legible'.name.1
    (List.append_cancel_left chars)
  have joined : (String.intercalate " " layout.fields).toList ++ [' '] ++ ['\x7d', '\n'] =
      (String.intercalate " " layout'.fields).toList ++ [' '] ++ ['\x7d', '\n'] := by
    simpa using rest
  rw [intercalate_toList, intercalate_toList] at joined
  have ended {layout : RecordLayout} (legible : layout.Legible) :
      ∀ word ∈ fieldWords layout.fields, Ended ' ' word := by
    intro word member
    simp only [fieldWords] at member
    split at member
    · cases List.mem_singleton.mp member
      exact ⟨[], rfl, List.not_mem_nil⟩
    · obtain ⟨field, isField, rfl⟩ := List.mem_map.mp member
      exact ⟨_, rfl, (legible.fields field isField).1.1⟩
  have words := flatten_injective (ended legible) (ended legible') (List.append_cancel_right joined)
  exact legible.eq_of_fields legible' (String.toList_inj.mp names) <|
    fieldWords_injective (fun field member => (legible.fields field member).2)
      (fun field member => (legible'.fields field member).2) words

theorem routineHead_toList (routine : Routine) : (routineHead routine).toList =
    ['.', 'f', 'u', 'n', 'c', ' '] ++ (routine.name.toList ++ ' ' ::
      (['p', 'a', 'r', 'a', 'm', 's', '='] ++ (Nat.repr routine.params).toList ++ ' ' ::
      (['l', 'o', 'c', 'a', 'l', 's', '='] ++ (Nat.repr routine.locals).toList ++ ' ' ::
      (['i', 't', 'e', 'r', 'a', 't', 'o', 'r', 's', '='] ++ (Nat.repr routine.iterators).toList ++
        ['\n'])))) := by
  have plain : routineHead routine = ".func " ++ routine.name ++ " params=" ++
      Nat.repr routine.params ++ " locals=" ++ Nat.repr routine.locals ++ " " ++
      ("iterators=" ++ Nat.repr routine.iterators ++ "\n") := rfl
  rw [plain]
  simp

theorem routineHead_injective {routine routine' : Routine} (word : Unbroken routine.name)
    (word' : Unbroken routine'.name) (same : routineHead routine = routineHead routine') :
    routine.name = routine'.name ∧ routine.params = routine'.params ∧
      routine.locals = routine'.locals ∧ routine.iterators = routine'.iterators := by
  have chars := congrArg String.toList same
  rw [routineHead_toList, routineHead_toList] at chars
  have free (label : List Char) (noBlank : ' ' ∉ label) (n : Nat) :
      ' ' ∉ label ++ (Nat.repr n).toList := by
    rw [List.mem_append]
    exact not_or.mpr ⟨noBlank, notMem_repr rfl⟩
  obtain ⟨names, rest⟩ := ended_injective word.1 word'.1 (List.append_cancel_left chars)
  obtain ⟨params, rest⟩ := ended_injective (free _ (by decide) _) (free _ (by decide) _) rest
  obtain ⟨locals, rest⟩ := ended_injective (free _ (by decide) _) (free _ (by decide) _) rest
  have iterators := List.append_cancel_right rest
  exact ⟨String.toList_inj.mp names, repr_injective (List.append_cancel_left params),
    repr_injective (List.append_cancel_left locals),
    repr_injective (List.append_cancel_left iterators)⟩

end Program

/-! ### Instructions -/

namespace Instr

def opcode : Instr → String
  | .pushNumber _ => "push.num"
  | .pushText _ => "push.str"
  | .pushBool _ => "push.bool"
  | .loadParam _ => "load.param"
  | .loadLocal _ => "load.local"
  | .storeLocal _ => "store.local"
  | .loadField _ _ => "load.field"
  | .construct _ => "construct"
  | .call _ => "call"
  | .branch _ => "br"
  | .branchIfFalse _ => "br.false"
  | .mark _ => ""
  | .binary op => op.mnemonic
  | .box => "box"
  | .pop => "pop"
  | .generateList | .writeLine => "intrinsic"
  | .acquire _ => "iter.acquire"
  | .advance _ _ => "iter.advance"
  | .release _ => "iter.release"
  | .ret => "ret"

def shapes : List Instr :=
  [.pushNumber 0, .pushText "", .pushBool true, .loadParam 0, .loadLocal 0, .storeLocal 0,
    .loadField 0 0, .construct 0, .call 0, .branch 0, .branchIfFalse 0, .mark 0, .box, .pop,
    .generateList, .acquire 0, .advance 0 0, .release 0, .ret] ++ BinaryInstr.all.map .binary

def shape : Instr → Instr
  | .pushNumber _ => .pushNumber 0
  | .pushText _ => .pushText ""
  | .pushBool _ => .pushBool true
  | .loadParam _ => .loadParam 0
  | .loadLocal _ => .loadLocal 0
  | .storeLocal _ => .storeLocal 0
  | .loadField _ _ => .loadField 0 0
  | .construct _ => .construct 0
  | .call _ => .call 0
  | .branch _ => .branch 0
  | .branchIfFalse _ => .branchIfFalse 0
  | .mark _ => .mark 0
  | .binary op => .binary op
  | .box => .box
  | .pop => .pop
  | .generateList | .writeLine => .generateList
  | .acquire _ => .acquire 0
  | .advance _ _ => .advance 0 0
  | .release _ => .release 0
  | .ret => .ret

theorem shape_mem (instr : Instr) : instr.shape ∈ shapes := by
  cases instr with
  | binary op => cases op <;> simp [shape, shapes, BinaryInstr.all]
  | _ => simp [shape, shapes]

theorem shape_opcode (instr : Instr) : instr.shape.opcode = instr.opcode := by
  cases instr <;> rfl

theorem shapes_distinct : (shapes.map opcode).Nodup := by decide +kernel

theorem shape_eq {instr instr' : Instr} (same : instr.opcode = instr'.opcode) :
    instr.shape = instr'.shape := by
  rw [← shape_opcode, ← shape_opcode instr'] at same
  exact List.inj_on_of_nodup_map shapes_distinct instr.shape_mem instr'.shape_mem same

theorem opcode_word (instr : Instr) : ' ' ∉ instr.opcode.toList := by
  have all : ∀ shape ∈ shapes, ' ' ∉ shape.opcode.toList := by decide +kernel
  rw [← shape_opcode]
  exact all _ instr.shape_mem

end Instr

namespace Program

def Opens (text word : String) : Prop :=
  text = word ∨ ∃ rest, text = word ++ " " ++ rest

theorem Opens.injective {text word word' : String} (opens : Opens text word)
    (opens' : Opens text word') (free : ' ' ∉ word.toList) (free' : ' ' ∉ word'.toList) :
    word = word' := by
  have ended {word : String} (opens : Opens text word) :
      ∃ rest, text.toList ++ [' '] = word.toList ++ ' ' :: rest := by
    rcases opens with rfl | ⟨rest, rfl⟩
    · exact ⟨[], rfl⟩
    · exact ⟨rest.toList ++ [' '], by simp⟩
  obtain ⟨rest, eq⟩ := ended opens
  obtain ⟨rest', eq'⟩ := ended opens'
  exact String.toList_inj.mp (ended_injective free free' (eq.symm.trans eq')).1

section

variable {program : Program} {text : String}

theorem instrText_construct {record : Nat} (listed : program.instrText (.construct record) = .ok text) :
    ∃ layout, program.records[record]? = some layout ∧ text = "construct " ++ layout.name := by
  simp only [instrText, Program.record] at listed
  cases found : program.records[record]? with
  | none =>
    rw [found] at listed
    cases listed
  | some layout =>
    rw [found] at listed
    cases listed
    exact ⟨layout, rfl, rfl⟩

theorem instrText_loadField {record index : Nat}
    (listed : program.instrText (.loadField record index) = .ok text) :
    ∃ layout field, program.records[record]? = some layout ∧ layout.fields[index]? = some field ∧
      text = "load.field " ++ layout.name ++ "." ++ field := by
  simp only [instrText, Program.record] at listed
  cases found : program.records[record]? with
  | none =>
    rw [found] at listed
    cases listed
  | some layout =>
    simp only [found] at listed
    cases named : layout.fields[index]? with
    | none =>
      simp only [bind, Except.bind, named] at listed
      cases listed
    | some field =>
      simp only [bind, Except.bind, named] at listed
      cases listed
      exact ⟨layout, field, rfl, named, rfl⟩

theorem instrText_call {routine : Nat} (listed : program.instrText (.call routine) = .ok text) :
    ∃ found, program.routines[routine]? = some found ∧ text = "call " ++ found.name := by
  simp only [instrText, Program.routine] at listed
  cases found : program.routines[routine]? with
  | none =>
    rw [found] at listed
    cases listed
  | some routine =>
    rw [found] at listed
    cases listed
    exact ⟨routine, rfl, rfl⟩

theorem instrText_opens {instr : Instr} (listed : program.instrText instr = .ok text)
    (noMark : ∀ label, instr ≠ .mark label) : Opens text instr.opcode := by
  cases instr with
  | mark label => exact absurd rfl (noMark label)
  | loadField record index =>
    obtain ⟨layout, field, -, -, rfl⟩ := instrText_loadField listed
    exact .inr ⟨layout.name ++ ("." ++ field), by simp only [String.append_assoc]; rfl⟩
  | construct record =>
    obtain ⟨layout, -, rfl⟩ := instrText_construct listed
    exact .inr ⟨layout.name, rfl⟩
  | call routine =>
    obtain ⟨found, -, rfl⟩ := instrText_call listed
    exact .inr ⟨found.name, rfl⟩
  | advance slot exit =>
    cases listed
    exact .inr ⟨Nat.repr slot ++ (" " ++ Label.text exit), by simp only [String.append_assoc]; rfl⟩
  | generateList =>
    cases listed
    exact .inr ⟨"generate_list", rfl⟩
  | writeLine =>
    cases listed
    exact .inr ⟨"write_line", rfl⟩
  | binary | box | pop | ret =>
    cases listed
    exact .inl rfl
  | _ =>
    cases listed
    exact .inr ⟨_, rfl⟩

end

/-- Programs whose routines have the same names in order, and that have the same records, each of
which is told by its name. -/
structure Agree (program program' : Program) : Prop where
  names : program.routines.toList.map Routine.name = program'.routines.toList.map Routine.name
  distinct : (program.routines.toList.map Routine.name).Nodup
  records : program.records = program'.records
  legible : ∀ layout ∈ program.records, layout.Legible
  unambiguous : program.Unambiguous

def SameRecord (program program' : Program) (record record' : Nat) : Prop :=
  ∃ layout, program.records[record]? = some layout ∧ program'.records[record']? = some layout

variable {program program' : Program} {text : String}

theorem repr_operand {head : String} {n n' : Nat} (same : head ++ Nat.repr n = head ++ Nat.repr n') :
    n = n' :=
  repr_injective (congrArg String.toList ((String.append_right_inj head).mp same))

theorem split_operands {head between first second first' second' : String} {stop : Char}
    (isStop : between.toList = [stop]) (free : stop ∉ first.toList) (free' : stop ∉ first'.toList)
    (same : head ++ first ++ between ++ second = head ++ first' ++ between ++ second') :
    first = first' ∧ second = second' := by
  have chars := congrArg String.toList same
  simp only [String.toList_append, isStop, List.append_assoc, List.singleton_append] at chars
  obtain ⟨firsts, seconds⟩ := ended_injective free free' (List.append_cancel_left chars)
  exact ⟨String.toList_inj.mp firsts, String.toList_inj.mp seconds⟩

theorem label_injective {label label' : Label} (same : label.text = label'.text) : label = label' := by
  have texts : "L" ++ Nat.repr label = "L" ++ Nat.repr label' := same
  exact repr_operand texts

theorem Agree.routine_eq (agree : program.Agree program') {routine routine' : Nat}
    {found found' : Routine} (present : program.routines[routine]? = some found)
    (present' : program'.routines[routine']? = some found') (same : found.name = found'.name) :
    routine = routine' := by
  have name : (program.routines.toList.map Routine.name)[routine]? = some found.name := by
    rw [List.getElem?_map, Array.getElem?_toList, present]
    rfl
  have name' : (program.routines.toList.map Routine.name)[routine']? = some found.name := by
    rw [agree.names, List.getElem?_map, Array.getElem?_toList, present', same]
    rfl
  exact (List.getElem?_inj (List.getElem?_eq_some_iff.mp name).1 agree.distinct).mp
    (name.trans name'.symm)

theorem Agree.record_eq (agree : program.Agree program') {record record' : Nat}
    {found found' : RecordLayout} (present : program.records[record]? = some found)
    (present' : program'.records[record']? = some found') (same : found.name = found'.name) :
    found = found' := by
  have member : found ∈ program.records := Array.mem_of_getElem? present
  have member' : found' ∈ program.records := agree.records ▸ Array.mem_of_getElem? present'
  exact (agree.legible found member).eq_of_fields (agree.legible found' member') same
    (agree.unambiguous found member found' member' same)

theorem instrText_twin (agree : program.Agree program') {instr instr' : Instr}
    (listed : program.instrText instr = .ok text) (listed' : program'.instrText instr' = .ok text)
    (noMark : ∀ label, instr ≠ .mark label) (noMark' : ∀ label, instr' ≠ .mark label) :
    instr.Twin Eq (program.SameRecord program') instr' := by
  have shape := Instr.shape_eq ((instrText_opens listed noMark).injective
    (instrText_opens listed' noMark') instr.opcode_word instr'.opcode_word)
  have both := listed.trans listed'.symm
  cases instr with
  | mark label => exact absurd rfl (noMark label)
  | pushNumber value =>
    cases instr' with
    | pushNumber value' =>
      obtain rfl := Number.text_injective ((String.append_right_inj _).mp (Except.ok.inj both))
      exact .plain rfl
    | _ => cases shape
  | pushText value =>
    cases instr' with
    | pushText value' =>
      obtain rfl := Text.quoted_injective ((String.append_right_inj _).mp (Except.ok.inj both))
      exact .plain rfl
    | _ => cases shape
  | pushBool value =>
    cases instr' with
    | pushBool value' =>
      have texts : toString value = toString value' :=
        (String.append_right_inj _).mp (Except.ok.inj both)
      obtain rfl : value = value' := by
        revert texts
        cases value <;> cases value' <;> decide
      exact .plain rfl
    | _ => cases shape
  | loadParam index =>
    cases instr' with
    | loadParam index' =>
      obtain rfl := repr_operand (Except.ok.inj both)
      exact .plain rfl
    | _ => cases shape
  | loadLocal slot =>
    cases instr' with
    | loadLocal slot' =>
      obtain rfl := repr_operand (Except.ok.inj both)
      exact .plain rfl
    | _ => cases shape
  | storeLocal slot =>
    cases instr' with
    | storeLocal slot' =>
      obtain rfl := repr_operand (Except.ok.inj both)
      exact .plain rfl
    | _ => cases shape
  | acquire slot =>
    cases instr' with
    | acquire slot' =>
      obtain rfl := repr_operand (Except.ok.inj both)
      exact .plain rfl
    | _ => cases shape
  | release slot =>
    cases instr' with
    | release slot' =>
      obtain rfl := repr_operand (Except.ok.inj both)
      exact .plain rfl
    | _ => cases shape
  | branch target =>
    cases instr' with
    | branch target' =>
      obtain rfl := label_injective ((String.append_right_inj _).mp (Except.ok.inj both))
      exact .plain rfl
    | _ => cases shape
  | branchIfFalse target =>
    cases instr' with
    | branchIfFalse target' =>
      obtain rfl := label_injective ((String.append_right_inj _).mp (Except.ok.inj both))
      exact .plain rfl
    | _ => cases shape
  | advance slot exit =>
    cases instr' with
    | advance slot' exit' =>
      obtain ⟨slots, exits⟩ := split_operands rfl (notMem_repr rfl) (notMem_repr rfl)
        (Except.ok.inj both)
      obtain rfl := repr_injective (congrArg String.toList slots)
      obtain rfl := label_injective exits
      exact .plain rfl
    | _ => cases shape
  | construct record =>
    cases instr' with
    | construct record' =>
      obtain ⟨layout, present, rfl⟩ := instrText_construct listed
      obtain ⟨layout', present', texts⟩ := instrText_construct listed'
      obtain rfl := agree.record_eq present present' ((String.append_right_inj _).mp texts)
      exact .construct ⟨layout, present, present'⟩
    | _ => cases shape
  | call routine =>
    cases instr' with
    | call routine' =>
      obtain ⟨found, present, rfl⟩ := instrText_call listed
      obtain ⟨found', present', texts⟩ := instrText_call listed'
      exact .call (agree.routine_eq present present' ((String.append_right_inj _).mp texts))
    | _ => cases shape
  | loadField record index =>
    cases instr' with
    | loadField record' index' =>
      obtain ⟨layout, field, present, named, rfl⟩ := instrText_loadField listed
      obtain ⟨layout', field', present', named', texts⟩ := instrText_loadField listed'
      have legible := agree.legible layout (Array.mem_of_getElem? present)
      have legible' := agree.legible layout' (agree.records ▸ Array.mem_of_getElem? present')
      obtain ⟨names, rfl⟩ := split_operands rfl legible.plain legible'.plain texts
      obtain rfl := agree.record_eq present present' names
      obtain rfl : index = index' :=
        (List.getElem?_inj (List.getElem?_eq_some_iff.mp named).1 legible.distinct).mp
          (named.trans named'.symm)
      exact .loadField ⟨layout, present, present'⟩ index
    | _ => cases shape
  | binary op =>
    cases instr' with
    | binary op' =>
      cases shape
      exact .plain rfl
    | _ => cases shape
  | generateList =>
    cases instr' with
    | generateList => exact .plain rfl
    | writeLine => exact absurd (Except.ok.inj both) (by decide)
    | _ => cases shape
  | writeLine =>
    cases instr' with
    | writeLine => exact .plain rfl
    | generateList => exact absurd (Except.ok.inj both) (by decide)
    | _ => cases shape
  | box =>
    cases instr' with
    | box => exact .plain rfl
    | _ => cases shape
  | pop =>
    cases instr' with
    | pop => exact .plain rfl
    | _ => cases shape
  | ret =>
    cases instr' with
    | ret => exact .plain rfl
    | _ => cases shape

/-! ### Lines -/

theorem instrLine_eq {instr : Instr} {line : String} (listed : program.instrLine instr = .ok line) :
    ∃ text, program.instrText instr = .ok text ∧
      ((∃ label, instr = .mark label ∧ line = text ++ "\n") ∨
        (∀ label, instr ≠ .mark label) ∧ line = "    " ++ text ++ "\n") := by
  simp only [instrLine] at listed
  cases found : program.instrText instr with
  | error fault =>
    rw [found] at listed
    cases listed
  | ok text =>
    rw [found] at listed
    cases instr with
    | mark label =>
      cases listed
      exact ⟨_, rfl, .inl ⟨label, rfl, rfl⟩⟩
    | _ =>
      cases listed
      exact ⟨_, rfl, .inr ⟨nofun, rfl⟩⟩

theorem mark_text {label : Label} {text : String}
    (listed : program.instrText (.mark label) = .ok text) : text = label.text ++ ":" := by
  cases listed
  rfl

theorem margin {label : Label} {rest rest' : String} :
    label.text ++ ":" ++ rest ≠ "    " ++ text ++ rest' := by
  have plain : label.text = "L" ++ Nat.repr label := rfl
  intro same
  have chars := congrArg String.toList same
  rw [plain] at chars
  simp at chars

theorem instrLine_twin (agree : program.Agree program') {instr instr' : Instr} {line : String}
    (listed : program.instrLine instr = .ok line) (listed' : program'.instrLine instr' = .ok line) :
    instr.Twin Eq (program.SameRecord program') instr' := by
  obtain ⟨text, found, ⟨label, rfl, rfl⟩ | ⟨noMark, rfl⟩⟩ := instrLine_eq listed
  · obtain rfl := mark_text found
    obtain ⟨text', found', ⟨label', rfl, same⟩ | ⟨noMark', same⟩⟩ := instrLine_eq listed'
    · obtain rfl := mark_text found'
      obtain rfl := label_injective
        ((String.append_left_inj _).mp ((String.append_left_inj _).mp same))
      exact .plain rfl
    · exact (margin same).elim
  · obtain ⟨text', found', ⟨label', rfl, same⟩ | ⟨noMark', same⟩⟩ := instrLine_eq listed'
    · obtain rfl := mark_text found'
      exact (margin same.symm).elim
    · obtain rfl := (String.append_right_inj _).mp ((String.append_left_inj _).mp same)
      exact instrText_twin agree found found' noMark noMark'

theorem notMem_append {c : Char} {front back : String} (free : c ∉ front.toList)
    (free' : c ∉ back.toList) : c ∉ (front ++ back).toList := by
  rw [String.toList_append, List.mem_append]
  exact not_or.mpr ⟨free, free'⟩

theorem label_line (label : Label) : '\n' ∉ label.text.toList := by
  have plain : label.text = "L" ++ Nat.repr label := rfl
  rw [plain]
  exact notMem_append (by decide) (notMem_repr rfl)

theorem instrText_line (legible : program.Legible) {instr : Instr}
    (listed : program.instrText instr = .ok text) : '\n' ∉ text.toList := by
  cases instr with
  | loadField record index =>
    obtain ⟨layout, field, present, named, rfl⟩ := instrText_loadField listed
    have words := legible.records layout (Array.mem_of_getElem? present)
    exact notMem_append (notMem_append (notMem_append (by decide) words.name.2) (by decide))
      (words.fields field (List.mem_of_getElem? named)).1.2
  | construct record =>
    obtain ⟨layout, present, rfl⟩ := instrText_construct listed
    exact notMem_append (by decide) (legible.records layout (Array.mem_of_getElem? present)).name.2
  | call routine =>
    obtain ⟨found, present, rfl⟩ := instrText_call listed
    exact notMem_append (by decide) (legible.routines found (Array.mem_of_getElem? present)).name.2
  | pushNumber value =>
    cases listed
    exact notMem_append (by decide) (Number.text_line value)
  | pushText value =>
    cases listed
    exact notMem_append (by decide) (Text.quoted_line value)
  | pushBool value =>
    cases listed
    cases value <;> decide
  | loadParam | loadLocal | storeLocal | acquire | release =>
    cases listed
    exact notMem_append (by decide) (notMem_repr rfl)
  | branch target | branchIfFalse target =>
    cases listed
    exact notMem_append (by decide) (label_line target)
  | advance slot exit =>
    cases listed
    exact notMem_append (notMem_append (notMem_append (by decide) (notMem_repr rfl)) (by decide))
      (label_line exit)
  | mark label =>
    cases listed
    exact notMem_append (label_line label) (by decide)
  | binary op =>
    cases listed
    cases op <;> decide
  | box | pop | generateList | writeLine | ret =>
    cases listed
    decide

def Line (line : String) : Prop := Ended '\n' line.toList ∧ line ≠ "\n"

theorem line_of_content {content : String} (free : '\n' ∉ content.toList) (nonempty : content ≠ "") :
    Line (content ++ "\n") := by
  refine ⟨⟨content.toList, String.toList_append, free⟩, fun eq => nonempty ?_⟩
  have alone : content ++ "\n" = "" ++ "\n" := eq
  exact (String.append_left_inj _).mp alone

theorem instrLine_line (legible : program.Legible) {instr : Instr} {line : String}
    (listed : program.instrLine instr = .ok line) : Line line := by
  obtain ⟨text, found, ⟨label, rfl, rfl⟩ | ⟨noMark, rfl⟩⟩ := instrLine_eq listed
  · refine line_of_content (instrText_line legible found) ?_
    obtain rfl := mark_text found
    intro empty
    simpa using congrArg String.toList empty
  · refine line_of_content (notMem_append (by decide) (instrText_line legible found)) ?_
    intro empty
    simpa using congrArg String.toList empty

theorem fields_line {layout : RecordLayout} (legible : layout.Legible) :
    '\n' ∉ (String.intercalate " " layout.fields).toList := by
  intro member
  have inWords : '\n' ∈ (fieldWords layout.fields).flatten := by
    rw [← intercalate_toList]
    exact List.mem_append_left _ member
  obtain ⟨word, isWord, inWord⟩ := List.mem_flatten.mp inWords
  simp only [fieldWords] at isWord
  split at isWord
  · cases List.mem_singleton.mp isWord
    simp at inWord
  · obtain ⟨field, isField, rfl⟩ := List.mem_map.mp isWord
    rcases List.mem_append.mp inWord with inField | wrong
    · exact (legible.fields field isField).1.2 inField
    · simp at wrong

theorem recordLine_line {layout : RecordLayout} (legible : layout.Legible) :
    Line (recordLine layout) := by
  have last : " \x7d\n" = " \x7d" ++ "\n" := rfl
  rw [recordLine, last, ← String.append_assoc]
  refine line_of_content ?_ fun empty => by simpa using congrArg String.toList empty
  exact notMem_append (notMem_append (notMem_append (notMem_append (by decide) legible.name.2)
    (by decide)) (fields_line legible)) (by decide)

theorem routineHead_line {routine : Routine} (word : Unbroken routine.name) :
    Line (routineHead routine) := by
  have plain : routineHead routine = ".func " ++ routine.name ++ " params=" ++
      Nat.repr routine.params ++ " locals=" ++ Nat.repr routine.locals ++ " " ++
      ("iterators=" ++ Nat.repr routine.iterators ++ "\n") := rfl
  rw [plain, ← String.append_assoc, ← String.append_assoc]
  refine line_of_content ?_ fun empty => by simpa using congrArg String.toList empty
  refine notMem_append (notMem_append (notMem_append (notMem_append (notMem_append (notMem_append
    (notMem_append (notMem_append ?_ word.2) ?_) ?_) ?_) ?_) ?_) ?_) ?_
  all_goals first | decide | exact notMem_repr rfl

theorem routineHead_ne_recordLine {routine : Routine} {layout : RecordLayout} :
    routineHead routine ≠ recordLine layout := by
  intro same
  have chars := congrArg String.toList same
  rw [routineHead_toList, recordLine_toList] at chars
  cases (List.cons.inj (List.cons.inj chars).2).1

end Program

end LetChain
