import LetChain.Code.Fault
import LetChain.Code.Instr
import LetChain.Lowering.Error

/-! Routines, and drafts of routines that are still being written. -/

namespace LetChain

structure Routine where
  name : String
  params : Nat
  locals : Nat
  iterators : Nat
  code : Array Instr
  labels : Array Nat

/-- A routine whose labels need not lead anywhere yet. -/
structure Draft where
  name : String
  params : Nat
  locals : Nat
  iterators : Nat
  code : Array Instr
  labels : Array (Option Nat)

namespace Draft

/-- Locals and iterators are counted in 16 bits. -/
def maxSlots : Nat := 65535

/-- Labels are numbered in 32 bits. -/
def maxLabels : Nat := 4294967296

def start (name : String) (params : Nat) : Draft := ⟨name, params, 0, 0, #[], #[]⟩

def emit (draft : Draft) (instr : Instr) : Draft :=
  { draft with code := draft.code.push instr }

def newLabel (draft : Draft) : Except LowerError (Label × Draft) :=
  let label := draft.labels.size
  if label < maxLabels then .ok (label, { draft with labels := draft.labels.push none })
  else .error (.tooMany "labels")

def newLabels : Nat → Draft → Except LowerError Draft
  | 0, draft => .ok draft
  | count + 1, draft => do newLabels count (← draft.newLabel).2

def mark (draft : Draft) (label : Label) : Except Fault Draft :=
  let ⟨name, params, locals, iterators, code, labels⟩ := draft
  if label < labels.size then
    let here := code.size
    .ok ⟨name, params, locals, iterators, code.push (.mark label),
      labels.setIfInBounds label (some here)⟩
  else .error (.unknownLabel label)

def newLocal (draft : Draft) : Except LowerError (Nat × Draft) :=
  let slot := draft.locals
  if slot < maxSlots then .ok (slot, { draft with locals := slot + 1 })
  else .error (.tooMany "locals")

def newIterator (draft : Draft) : Except LowerError (Nat × Draft) :=
  let slot := draft.iterators
  if slot < maxSlots then .ok (slot, { draft with iterators := slot + 1 })
  else .error (.tooMany "iterators")

def targets (index : Nat) (done : Array Nat) : List (Option Nat) → Except Fault (Array Nat)
  | [] => .ok done
  | some target :: rest => targets (index + 1) (done.push target) rest
  | none :: _ => .error (.unmarkedLabel index)

def finish (draft : Draft) : Except Fault Routine := do
  let labels ← targets 0 #[] draft.labels.toList
  return ⟨draft.name, draft.params, draft.locals, draft.iterators, draft.code, labels⟩

def write : List Instr → Draft → Except Fault Draft
  | [], draft => .ok draft
  | .mark label :: rest, draft => do write rest (← draft.mark label)
  | instr :: rest, draft => write rest (draft.emit instr)

end Draft

def Routine.assemble (name : String) (params locals iterators labels : Nat) (code : List Instr) :
    Except (Halt LowerError) Routine := do
  let draft ← (Draft.newLabels labels (.start name params)).mapError Halt.error
  let draft ← (draft.write code).mapError Halt.fault
  let routine ← draft.finish.mapError Halt.fault
  return { routine with locals := locals, iterators := iterators }

end LetChain
