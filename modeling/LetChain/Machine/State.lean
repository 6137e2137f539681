import LetChain.Code.Program
import LetChain.Machine.Error
import LetChain.Machine.Sink
import LetChain.Machine.Value

/-! The state of a run. -/

namespace LetChain

structure Limits where
  maxCallDepth : Nat
  maxRangeLength : Nat
  maxStack : Nat

def Limits.standard : Limits := ⟨1024, 1048576, 65536⟩

/-- What a call holds: its arguments, its locals and iterators, where its operands begin on the
stack, and the index of its next instruction. An open iterator is the rest of a sequence. -/
structure Frame where
  routine : Routine
  args : Array Value
  locals : Array (Option Value)
  iterators : Array (Option (List Value))
  base : Nat
  pc : Nat

def Frame.enter (routine : Routine) (args : Array Value) (base : Nat) : Frame :=
  ⟨routine, args, Array.replicate routine.locals none, Array.replicate routine.iterators none,
    base, 0⟩

def Frame.openCount (frame : Frame) : Nat := frame.iterators.toList.countP Option.isSome

/-- What outlives a run: the operand stack that all calls share, the number of calls and of open
iterators, and the number of records made. -/
structure Machine where
  stack : Array Value
  depth : Nat
  openIterators : Nat
  made : Nat

namespace Machine

def fresh : Machine := ⟨#[], 0, 0, 0⟩

def leave (machine : Machine) (frame : Frame) : Machine :=
  { machine with
    depth := machine.depth - 1
    openIterators := machine.openIterators - frame.openCount }

def unwind (machine : Machine) (frames : List Frame) : Machine := frames.foldl leave machine

end Machine

structure State where
  frame : Frame
  callers : List Frame
  machine : Machine
  sink : Sink

inductive Progress where
  | running (state : State)
  | returned (value : Option Value) (machine : Machine) (sink : Sink)
  | stopped (why : Halt RuntimeError) (machine : Machine) (sink : Sink)

namespace State

def stop (state : State) (why : Halt RuntimeError) : Progress :=
  .stopped why (state.machine.unwind (state.frame :: state.callers)) state.sink

def fail (state : State) (error : RuntimeError) : Progress := state.stop (.error error)

def underflow (state : State) : Progress :=
  state.fail (.stackUnderflow state.frame.routine.name)

def outOfBounds (state : State) (what : String) (index : Nat) : Progress :=
  state.fail (.outOfBounds what index state.frame.routine.name)

def push (state : State) (limits : Limits) (value : Value) : Progress :=
  let ⟨frame, callers, ⟨stack, depth, openIterators, made⟩, sink⟩ := state
  if limits.maxStack ≤ stack.size then
    fail ⟨frame, callers, ⟨stack, depth, openIterators, made⟩, sink⟩
      (.stackOverflow limits.maxStack)
  else .running ⟨frame, callers, ⟨stack.push value, depth, openIterators, made⟩, sink⟩

@[inline]
def pop (state : State) (next : Value → State → Progress) : Progress :=
  let ⟨frame, callers, ⟨stack, depth, openIterators, made⟩, sink⟩ := state
  if stack.size ≤ frame.base then
    underflow ⟨frame, callers, ⟨stack, depth, openIterators, made⟩, sink⟩
  else
    match stack.back? with
    | some value => next value ⟨frame, callers, ⟨stack.pop, depth, openIterators, made⟩, sink⟩
    | none => underflow ⟨frame, callers, ⟨stack, depth, openIterators, made⟩, sink⟩

@[inline]
def popMany (state : State) (count : Nat) (next : Array Value → State → Progress) : Progress :=
  let ⟨frame, callers, ⟨stack, depth, openIterators, made⟩, sink⟩ := state
  if stack.size < frame.base + count then
    underflow ⟨frame, callers, ⟨stack, depth, openIterators, made⟩, sink⟩
  else
    let height := stack.size - count
    let values := stack.extract height stack.size
    next values ⟨frame, callers, ⟨stack.shrink height, depth, openIterators, made⟩, sink⟩

@[inline]
def popNumber (state : State) (instr : String) (next : Float → State → Progress) : Progress :=
  state.pop fun value state =>
    match value with
    | .number number => next number state
    | other => state.fail (.typeMismatch instr "number" other.kind)

def jump (state : State) (label : Label) : Progress :=
  let ⟨⟨routine, args, locals, iterators, base, pc⟩, callers, machine, sink⟩ := state
  match routine.labels[label]? with
  | some target => .running ⟨⟨routine, args, locals, iterators, base, target⟩, callers, machine, sink⟩
  | none =>
    stop ⟨⟨routine, args, locals, iterators, base, pc⟩, callers, machine, sink⟩
      (.fault (.unknownLabel label))

end State

end LetChain
