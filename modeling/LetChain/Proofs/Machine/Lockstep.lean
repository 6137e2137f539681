import LetChain.Machine.Run
import LetChain.Proofs.Machine.Alike

/-! Two runs in lockstep. The programs may number their routines and records differently, the runs may
stand on different operands, records may have different identities, and limits may differ where a
run that meets one is excused. Step by step the two runs do the same. -/

namespace LetChain

open Value (Alike AllAlike)

/-! ### Programs with other numbers -/

namespace Instr

def isPlain : Instr → Bool
  | .call _ | .construct _ | .loadField .. => false
  | _ => true

inductive Twin (calls records : Nat → Nat → Prop) : Instr → Instr → Prop
  | plain {instr : Instr} (isPlain : instr.isPlain) : Twin calls records instr instr
  | call {routine routine' : Nat} (known : calls routine routine') :
      Twin calls records (.call routine) (.call routine')
  | construct {record record' : Nat} (known : records record record') :
      Twin calls records (.construct record) (.construct record')
  | loadField {record record' : Nat} (known : records record record') (index : Nat) :
      Twin calls records (.loadField record index) (.loadField record' index)

end Instr

structure Routine.Twin (calls records : Nat → Nat → Prop) (routine routine' : Routine) : Prop where
  name : routine.name = routine'.name
  params : routine.params = routine'.params
  locals : routine.locals = routine'.locals
  iterators : routine.iterators = routine'.iterators
  labels : routine.labels = routine'.labels
  code : List.Forall₂ (Instr.Twin calls records) routine.code.toList routine'.code.toList

/-- What relates two runs: the programs and limits, the operands below them, the records, routines
and layouts that answer to each other, and the errors after which nothing is asked of the other
run. -/
structure Link where
  program : Program
  program' : Program
  limits : Limits
  limits' : Limits
  under : List Value
  under' : List Value
  same : Identity → Identity → Prop
  calls : Nat → Nat → Prop
  records : Nat → Nat → Prop
  excused : RuntimeError → Prop
  excused' : RuntimeError → Prop

namespace Link

variable (link : Link)

/-- A check that both runs make: they pass it together or fail it with one error, or a run that fails
it is excused. -/
inductive Checks (fails fails' : Prop) (error error' : RuntimeError) : Prop
  | neither (passes : ¬fails) (passes' : ¬fails')
  | both (failed : fails) (failed' : fails') (one : error = error')
  | left (failed : fails) (excused : link.excused error)
  | right (failed : fails') (excused : link.excused' error')

structure Sound : Prop where
  faithful : Faithful link.same
  routine : ∀ {index index' : Nat}, link.calls index index' →
    Outcomes (Routine.Twin link.calls link.records) (link.program.routine index)
      (link.program'.routine index')
  record : ∀ {index index' : Nat}, link.records index index' →
    link.program.record index = link.program'.record index'
  stack : ∀ height, link.Checks (link.limits.maxStack ≤ link.under.length + height)
    (link.limits'.maxStack ≤ link.under'.length + height) (.stackOverflow link.limits.maxStack)
    (.stackOverflow link.limits'.maxStack)
  depth : ∀ depth, link.Checks (link.limits.maxCallDepth ≤ depth)
    (link.limits'.maxCallDepth ≤ depth) (.callDepthExceeded link.limits.maxCallDepth)
    (.callDepthExceeded link.limits'.maxCallDepth)
  range : ∀ first limit step,
    Range.generate first limit step link.limits.maxRangeLength =
        Range.generate first limit step link.limits'.maxRangeLength ∨
      (∃ error, Range.generate first limit step link.limits.maxRangeLength = .error error ∧
        link.excused error) ∨
      ∃ error, Range.generate first limit step link.limits'.maxRangeLength = .error error ∧
        link.excused' error

/-! ### States -/

structure Frames (frame frame' : Frame) : Prop where
  routine : frame.routine.Twin link.calls link.records frame'.routine
  args : List.Forall₂ (Alike link.same) frame.args.toList frame'.args.toList
  locals : List.Forall₂ (Option.Rel (Alike link.same)) frame.locals.toList frame'.locals.toList
  iterators : List.Forall₂ (Option.Rel (AllAlike link.same)) frame.iterators.toList
    frame'.iterators.toList
  base : ∃ height, frame.base = link.under.length + height ∧
    frame'.base = link.under'.length + height
  pc : frame.pc = frame'.pc

def Stacks (stack stack' : Array Value) : Prop :=
  ∃ top top', stack.toList = link.under ++ top ∧ stack'.toList = link.under' ++ top' ∧
    List.Forall₂ (Alike link.same) top top'

structure Machines (machine machine' : Machine) : Prop where
  stack : link.Stacks machine.stack machine'.stack
  depth : machine.depth = machine'.depth
  openIterators : machine.openIterators = machine'.openIterators
  made : ∀ count, link.same (.made (machine.made + count)) (.made (machine'.made + count))

structure States (state state' : State) : Prop where
  frame : link.Frames state.frame state'.frame
  callers : List.Forall₂ link.Frames state.callers state'.callers
  machine : link.Machines state.machine state'.machine
  sink : state.sink = state'.sink

inductive Lockstep : Progress → Progress → Prop
  | running {state state' : State} (states : link.States state state') :
      Lockstep (.running state) (.running state')
  | returned {value value' : Option Value} {machine machine' : Machine} {sink : Sink}
      (alike : Option.Rel (Alike link.same) value value')
      (machines : link.Machines machine machine') :
      Lockstep (.returned value machine sink) (.returned value' machine' sink)
  | stopped {machine machine' : Machine} {sink : Sink} (why : Halt RuntimeError)
      (depth : machine.depth = machine'.depth)
      (openIterators : machine.openIterators = machine'.openIterators) :
      Lockstep (.stopped why machine sink) (.stopped why machine' sink)
  | left {error : RuntimeError} {machine : Machine} {sink : Sink} {progress : Progress}
      (excused : link.excused error) : Lockstep (.stopped (.error error) machine sink) progress
  | right {error : RuntimeError} {machine : Machine} {sink : Sink} {progress : Progress}
      (excused : link.excused' error) : Lockstep progress (.stopped (.error error) machine sink)

variable {link} {state state' : State} {frame frame' : Frame} {machine machine' : Machine}

/-! ### Stacks -/

namespace Stacks

variable {stack stack' : Array Value}

theorem size (operands : link.Stacks stack stack') : ∃ height,
    stack.size = link.under.length + height ∧ stack'.size = link.under'.length + height := by
  obtain ⟨top, top', eq, eq', alike⟩ := operands
  refine ⟨top.length, ?_, ?_⟩
  · rw [← Array.length_toList, eq, List.length_append]
  · rw [← Array.length_toList, eq', List.length_append, alike.length_eq]

theorem push (operands : link.Stacks stack stack') {value value' : Value}
    (alike : Alike link.same value value') : link.Stacks (stack.push value) (stack'.push value') := by
  obtain ⟨top, top', eq, eq', both⟩ := operands
  refine ⟨top ++ [value], top' ++ [value'], ?_, ?_, List.rel_append both (.cons alike .nil)⟩
  · rw [Array.toList_push, eq, List.append_assoc]
  · rw [Array.toList_push, eq', List.append_assoc]

theorem cut (operands : link.Stacks stack stack') (height : Nat) :
    link.Stacks (stack.shrink (link.under.length + height))
        (stack'.shrink (link.under'.length + height)) ∧
      List.Forall₂ (Alike link.same)
        (stack.extract (link.under.length + height) stack.size).toList
        (stack'.extract (link.under'.length + height) stack'.size).toList := by
  obtain ⟨top, top', eq, eq', both⟩ := operands
  have whole : stack.toList.length = stack.size := rfl
  have whole' : stack'.toList.length = stack'.size := rfl
  refine ⟨⟨top.take height, top'.take height, ?_, ?_, List.forall₂_take height both⟩, ?_⟩
  · rw [Array.toList_shrink, eq, List.take_length_add_append]
  · rw [Array.toList_shrink, eq', List.take_length_add_append]
  · rw [Array.toList_extract, Array.toList_extract, ← whole, ← whole', List.extract_eq_take_drop,
      List.extract_eq_take_drop, List.take_of_length_le (by simp), List.take_of_length_le (by simp),
      eq, eq', List.drop_length_add_append, List.drop_length_add_append]
    exact List.forall₂_drop height both

theorem back? (operands : link.Stacks stack stack') (above : link.under.length < stack.size) :
    Option.Rel (Alike link.same) stack.back? stack'.back? ∧ link.Stacks stack.pop stack'.pop := by
  obtain ⟨height, size, size'⟩ := operands.size
  obtain ⟨top, top', eq, eq', both⟩ := operands
  have index : stack.size - 1 = link.under.length + (height - 1) := by omega
  have index' : stack'.size - 1 = link.under'.length + (height - 1) := by omega
  constructor
  · rw [Array.back?_eq_getElem?, Array.back?_eq_getElem?, ← Array.getElem?_toList,
      ← Array.getElem?_toList, eq, eq', index, index', List.getElem?_append_right (by omega),
      List.getElem?_append_right (by omega), Nat.add_sub_cancel_left, Nat.add_sub_cancel_left]
    exact Related.list_getElem? both _
  · refine ⟨top.take (height - 1), top'.take (height - 1), ?_, ?_, List.forall₂_take _ both⟩
    · rw [Array.toList_pop, List.dropLast_eq_take, Array.length_toList, index, eq,
        List.take_length_add_append]
    · rw [Array.toList_pop, List.dropLast_eq_take, Array.length_toList, index', eq',
        List.take_length_add_append]

end Stacks

theorem Frames.openCount (frames : link.Frames frame frame') : frame.openCount = frame'.openCount := by
  have iterators := frames.iterators
  simp only [Frame.openCount]
  generalize frame.iterators.toList = slots, frame'.iterators.toList = slots' at iterators
  induction iterators with
  | nil => rfl
  | cons first others ih =>
    rw [List.countP_cons, List.countP_cons, ih]
    cases first <;> rfl

theorem Machines.leave (machines : link.Machines machine machine')
    (frames : link.Frames frame frame') :
    link.Machines (machine.leave frame) (machine'.leave frame') := by
  refine ⟨machines.stack, ?_, ?_, machines.made⟩
  · simp only [Machine.leave, machines.depth]
  · simp only [Machine.leave, machines.openIterators, frames.openCount]

theorem Machines.unwind {frames frames' : List Frame} (all : List.Forall₂ link.Frames frames frames')
    (machines : link.Machines machine machine') :
    link.Machines (machine.unwind frames) (machine'.unwind frames') := by
  induction all generalizing machine machine' with
  | nil => exact machines
  | cons first others ih => exact ih (machines.leave first)

/-! ### Parts of instructions -/

theorem stop_lockstep (states : link.States state state') (why : Halt RuntimeError) :
    link.Lockstep (state.stop why) (state'.stop why) := by
  have machines := states.machine.unwind (.cons states.frame states.callers)
  rw [State.stop, State.stop, states.sink]
  exact .stopped why machines.depth machines.openIterators

theorem underflow_lockstep (states : link.States state state') :
    link.Lockstep state.underflow state'.underflow := by
  rw [State.underflow, State.underflow, states.frame.routine.name]
  exact stop_lockstep states _

theorem outOfBounds_lockstep (states : link.States state state') (what : String) (index : Nat) :
    link.Lockstep (state.outOfBounds what index) (state'.outOfBounds what index) := by
  rw [State.outOfBounds, State.outOfBounds, states.frame.routine.name]
  exact stop_lockstep states _

theorem Checks.lockstep {fails fails' : Prop} [Decidable fails] [Decidable fails']
    {error error' : RuntimeError} (checks : link.Checks fails fails' error error')
    (states : link.States state state') {progress progress' : Progress}
    (rest : link.Lockstep progress progress') :
    link.Lockstep (if fails then state.fail error else progress)
      (if fails' then state'.fail error' else progress') := by
  cases checks with
  | neither passes passes' => rwa [if_neg passes, if_neg passes']
  | both failed failed' one =>
    rw [if_pos failed, if_pos failed', one]
    exact stop_lockstep states _
  | left failed excused =>
    rw [if_pos failed]
    exact .left excused
  | right failed excused =>
    rw [if_pos failed]
    exact .right excused

theorem push_lockstep (sound : link.Sound) (states : link.States state state') {value value' : Value}
    (alike : Alike link.same value value') :
    link.Lockstep (state.push link.limits value) (state'.push link.limits' value') := by
  obtain ⟨height, size, size'⟩ := states.machine.stack.size
  have checks := sound.stack height
  rw [← size, ← size'] at checks
  exact checks.lockstep states (.running ⟨states.frame, states.callers,
    ⟨states.machine.stack.push alike, states.machine.depth, states.machine.openIterators,
      states.machine.made⟩, states.sink⟩)

theorem pop_lockstep (states : link.States state state') {next next' : Value → State → Progress}
    (rest : ∀ {value value' state state'}, Alike link.same value value' → link.States state state' →
      link.Lockstep (next value state) (next' value' state')) :
    link.Lockstep (state.pop next) (state'.pop next') := by
  obtain ⟨height, size, size'⟩ := states.machine.stack.size
  obtain ⟨base, start, start'⟩ := states.frame.base
  simp only [State.pop]
  by_cases empty : state.machine.stack.size ≤ state.frame.base
  · have empty' : state'.machine.stack.size ≤ state'.frame.base := by omega
    rw [if_pos empty, if_pos empty']
    exact underflow_lockstep states
  · have empty' : ¬state'.machine.stack.size ≤ state'.frame.base := by omega
    rw [if_neg empty, if_neg empty']
    obtain ⟨tops, operands⟩ := states.machine.stack.back? (by omega)
    generalize state.machine.stack.back? = top, state'.machine.stack.back? = top' at tops
    cases tops with
    | none => exact underflow_lockstep states
    | some alike =>
      exact rest alike ⟨states.frame, states.callers, ⟨operands, states.machine.depth,
        states.machine.openIterators, states.machine.made⟩, states.sink⟩

theorem popMany_lockstep (states : link.States state state') (count : Nat)
    {next next' : Array Value → State → Progress}
    (rest : ∀ {values values' : Array Value} {state state' : State},
      List.Forall₂ (Alike link.same) values.toList values'.toList → link.States state state' →
      link.Lockstep (next values state) (next' values' state')) :
    link.Lockstep (state.popMany count next) (state'.popMany count next') := by
  obtain ⟨height, size, size'⟩ := states.machine.stack.size
  obtain ⟨base, start, start'⟩ := states.frame.base
  simp only [State.popMany]
  by_cases few : state.machine.stack.size < state.frame.base + count
  · have few' : state'.machine.stack.size < state'.frame.base + count := by omega
    rw [if_pos few, if_pos few']
    exact underflow_lockstep states
  · have few' : ¬state'.machine.stack.size < state'.frame.base + count := by omega
    rw [if_neg few, if_neg few']
    have cut : state.machine.stack.size - count = link.under.length + (height - count) := by omega
    have cut' : state'.machine.stack.size - count = link.under'.length + (height - count) := by
      omega
    obtain ⟨operands, values⟩ := states.machine.stack.cut (height - count)
    rw [← cut, ← cut'] at operands values
    exact rest values ⟨states.frame, states.callers, ⟨operands, states.machine.depth,
      states.machine.openIterators, states.machine.made⟩, states.sink⟩

theorem popNumber_lockstep (states : link.States state state') (instr : String)
    {next next' : Float → State → Progress}
    (rest : ∀ {number state state'}, link.States state state' →
      link.Lockstep (next number state) (next' number state')) :
    link.Lockstep (state.popNumber instr next) (state'.popNumber instr next') := by
  refine pop_lockstep states fun alike states => ?_
  cases alike with
  | number value => exact rest states
  | _ => exact stop_lockstep states _

theorem jump_lockstep (states : link.States state state') (label : Label) :
    link.Lockstep (state.jump label) (state'.jump label) := by
  obtain ⟨⟨routine, args, locals, iterators, base, pc⟩, callers, machine, sink⟩ := state
  obtain ⟨⟨routine', args', locals', iterators', base', pc'⟩, callers', machine', sink'⟩ := state'
  have frames := states.frame
  have labels : routine.labels = routine'.labels := frames.routine.labels
  simp only [State.jump, labels]
  split
  · exact .running ⟨⟨frames.routine, frames.args, frames.locals, frames.iterators, frames.base, rfl⟩,
      states.callers, states.machine, states.sink⟩
  · exact stop_lockstep states _

theorem Frames.enter {routine routine' : Routine} {args args' : Array Value}
    {stack stack' : Array Value} (twins : routine.Twin link.calls link.records routine')
    (alike : List.Forall₂ (Alike link.same) args.toList args'.toList)
    (operands : link.Stacks stack stack') :
    link.Frames (Frame.enter routine args stack.size) (Frame.enter routine' args' stack'.size) := by
  refine ⟨twins, alike, ?_, ?_, operands.size, rfl⟩
  · simp only [Frame.enter, twins.locals]
    exact Related.replicate .none _
  · simp only [Frame.enter, twins.iterators]
    exact Related.replicate .none _

/-! ### Instructions -/

section

variable (sound : link.Sound) (states : link.States state state')
include sound states

theorem construct_lockstep (layout : RecordLayout) :
    link.Lockstep (state.construct link.limits layout) (state'.construct link.limits' layout) := by
  refine popMany_lockstep states _ fun {args args' state state'} alike states => ?_
  have filled := State.fillFields_alike alike layout.order
    (Related.replicate (.bool false) layout.fields.length)
  dsimp only
  generalize State.fillFields _ (args.toList.zip layout.order) = outcome,
    State.fillFields _ (args'.toList.zip layout.order) = outcome' at filled
  cases filled with
  | error fault => exact stop_lockstep states _
  | ok both =>
    have machines := states.machine
    have made := machines.made
    have later : ∀ count, link.same (.made (state.machine.made + 1 + count))
        (.made (state'.machine.made + 1 + count)) := by
      intro count
      rw [Nat.add_assoc, Nat.add_assoc]
      exact made (1 + count)
    refine push_lockstep sound ?_ (.record _ _ (made 0) both)
    exact ⟨states.frame, states.callers, ⟨machines.stack, machines.depth, machines.openIterators,
      later⟩, states.sink⟩

theorem call_lockstep {routine routine' : Routine}
    (twins : routine.Twin link.calls link.records routine') :
    link.Lockstep (state.call link.limits routine) (state'.call link.limits' routine') := by
  rw [State.call, State.call, twins.params]
  refine popMany_lockstep states _ fun {args args' state state'} alike states => ?_
  obtain ⟨frame, callers, ⟨stack, depth, openIterators, made⟩, sink⟩ := state
  obtain ⟨frame', callers', ⟨stack', depth', openIterators', made'⟩, sink'⟩ := state'
  have machines := states.machine
  obtain rfl : depth = depth' := machines.depth
  refine (sound.depth depth).lockstep states (.running ⟨?_, ?_, ?_, states.sink⟩)
  · exact .enter twins alike machines.stack
  · exact .cons states.frame states.callers
  · exact ⟨machines.stack, rfl, machines.openIterators, machines.made⟩

theorem ret_lockstep : link.Lockstep (state.ret link.limits) (state'.ret link.limits') := by
  obtain ⟨frame, callers, ⟨stack, depth, openIterators, made⟩, sink⟩ := state
  obtain ⟨frame', callers', ⟨stack', depth', openIterators', made'⟩, sink'⟩ := state'
  have machines := states.machine
  have operands : link.Stacks stack stack' := machines.stack
  obtain ⟨base, start, start'⟩ := states.frame.base
  obtain ⟨height, size, size'⟩ := operands.size
  dsimp only at start start'
  have values : Option.Rel (Alike link.same) (if frame.base < stack.size then stack.back? else none)
      (if frame'.base < stack'.size then stack'.back? else none) := by
    by_cases above : frame.base < stack.size
    · rw [if_pos above, if_pos (by omega)]
      exact (operands.back? (by omega)).1
    · rw [if_neg above, if_neg (by omega)]
      exact .none
  have left : link.Machines
      (Machine.leave ⟨stack.shrink frame.base, depth, openIterators, made⟩ frame)
      (Machine.leave ⟨stack'.shrink frame'.base, depth', openIterators', made'⟩ frame') := by
    refine Machines.leave ⟨?_, machines.depth, machines.openIterators, machines.made⟩ states.frame
    rw [start, start']
    exact (operands.cut base).1
  obtain rfl : sink = sink' := states.sink
  simp only [State.ret]
  generalize (if frame.base < stack.size then stack.back? else none) = value,
    (if frame'.base < stack'.size then stack'.back? else none) = value' at values
  cases states.callers with
  | nil => exact .returned values left
  | cons first others =>
    have back : link.States ⟨_, _, _, sink⟩ ⟨_, _, _, sink⟩ := ⟨first, others, left, rfl⟩
    cases values with
    | none => exact underflow_lockstep back
    | some alike => exact push_lockstep sound back alike

theorem loadLocal_lockstep (slot : Nat) :
    link.Lockstep (state.loadLocal link.limits slot) (state'.loadLocal link.limits' slot) := by
  have found := Related.getElem? states.frame.locals slot
  simp only [State.loadLocal]
  generalize state.frame.locals[slot]? = entry, state'.frame.locals[slot]? = entry' at found
  cases found with
  | none => exact outOfBounds_lockstep states _ _
  | some both =>
    cases both with
    | none => exact stop_lockstep states _
    | some alike => exact push_lockstep sound states alike

theorem loadParam_lockstep (index : Nat) :
    link.Lockstep (state.exec link.program link.limits (.loadParam index))
      (state'.exec link.program' link.limits' (.loadParam index)) := by
  have found := Related.getElem? states.frame.args index
  simp only [State.exec]
  generalize state.frame.args[index]? = entry, state'.frame.args[index]? = entry' at found
  cases found with
  | none => exact outOfBounds_lockstep states _ _
  | some alike => exact push_lockstep sound states alike

theorem loadField_lockstep (index : Nat) :
    link.Lockstep (state.loadField link.limits index) (state'.loadField link.limits' index) := by
  refine pop_lockstep states fun alike states => ?_
  cases alike with
  | record name fields answers both =>
    rename_i values values'
    have found := Related.list_getElem? (Value.allAlike_iff.mp both) index
    dsimp only
    generalize values[index]? = entry, values'[index]? = entry' at found
    cases found with
    | none => exact outOfBounds_lockstep states _ _
    | some alike => exact push_lockstep sound states alike
  | _ => exact stop_lockstep states _

theorem binary_lockstep (op : BinaryInstr) :
    link.Lockstep (state.binary link.limits op) (state'.binary link.limits' op) := by
  refine pop_lockstep states fun {rhs rhs' _ _} right states => ?_
  refine pop_lockstep states fun {lhs lhs' _ _} left states => ?_
  have applied := op.apply_alike sound.faithful left right
  generalize op.apply lhs rhs = outcome, op.apply lhs' rhs' = outcome' at applied
  cases applied with
  | ok alike => exact push_lockstep sound states alike
  | error error => exact stop_lockstep states _

theorem generateList_lockstep :
    link.Lockstep (state.generateList link.limits) (state'.generateList link.limits') := by
  refine popNumber_lockstep states _ fun {step _ _} states => ?_
  refine popNumber_lockstep states _ fun {limit _ _} states => ?_
  refine popNumber_lockstep states _ fun {first _ _} states => ?_
  rcases sound.range first limit step with same | ⟨error, failed, excused⟩ | ⟨error, failed, excused⟩
  · rw [same]
    split
    · rename_i items generated
      exact push_lockstep sound states (.seq (Range.generate_alike generated))
    · exact stop_lockstep states _
  · rw [failed]
    exact .left excused
  · rw [failed]
    exact .right excused

theorem advance_lockstep (slot : Nat) (exit : Label) :
    link.Lockstep (state.advance link.limits slot exit)
      (state'.advance link.limits' slot exit) := by
  obtain ⟨⟨routine, args, locals, iterators, base, pc⟩, callers, machine, sink⟩ := state
  obtain ⟨⟨routine', args', locals', iterators', base', pc'⟩, callers', machine', sink'⟩ := state'
  have frames := states.frame
  have found := Related.getElem? frames.iterators slot
  dsimp only at found
  simp only [State.advance]
  generalize iterators[slot]? = entry, iterators'[slot]? = entry' at found
  cases found with
  | none => exact stop_lockstep states _
  | some both =>
    cases both with
    | none => exact stop_lockstep states _
    | some both =>
      cases both with
      | nil => exact jump_lockstep states exit
      | cons first others =>
        refine push_lockstep sound ?_ first
        exact ⟨⟨frames.routine, frames.args, frames.locals,
          Related.setIfInBounds frames.iterators slot (.some others), frames.base, frames.pc⟩,
          states.callers, states.machine, states.sink⟩

omit sound

theorem storeLocal_lockstep (slot : Nat) :
    link.Lockstep (state.storeLocal slot) (state'.storeLocal slot) := by
  refine pop_lockstep states fun {_ _ state state'} alike states => ?_
  obtain ⟨⟨routine, args, locals, iterators, base, pc⟩, callers, machine, sink⟩ := state
  obtain ⟨⟨routine', args', locals', iterators', base', pc'⟩, callers', machine', sink'⟩ := state'
  have frames := states.frame
  have sizes : locals.size = locals'.size := Related.size_eq frames.locals
  simp only [sizes]
  split
  · refine .running ⟨?_, states.callers, states.machine, states.sink⟩
    exact ⟨frames.routine, frames.args, Related.setIfInBounds frames.locals slot (.some alike),
      frames.iterators, frames.base, frames.pc⟩
  · exact outOfBounds_lockstep states _ _

theorem branchIfFalse_lockstep (target : Label) :
    link.Lockstep (state.branchIfFalse target) (state'.branchIfFalse target) := by
  refine pop_lockstep states fun alike states => ?_
  cases alike with
  | bool value =>
    cases value with
    | true => exact .running states
    | false => exact jump_lockstep states target
  | _ => exact stop_lockstep states _

theorem writeLine_lockstep : link.Lockstep state.writeLine state'.writeLine := by
  refine pop_lockstep states fun {_ _ state state'} alike states => ?_
  obtain ⟨frame, callers, machine, sink⟩ := state
  obtain ⟨frame', callers', machine', sink'⟩ := state'
  obtain rfl : sink = sink' := states.sink
  simp only [alike.render_eq]
  split
  · exact .running ⟨states.frame, states.callers, states.machine, rfl⟩
  · refine stop_lockstep ?_ _
    exact ⟨states.frame, states.callers, states.machine, rfl⟩

theorem acquire_lockstep (slot : Nat) :
    link.Lockstep (state.acquire slot) (state'.acquire slot) := by
  refine pop_lockstep states fun {_ _ state state'} alike states => ?_
  cases alike with
  | seq items =>
    obtain ⟨⟨routine, args, locals, iterators, base, pc⟩, callers,
      ⟨stack, depth, openIterators, made⟩, sink⟩ := state
    obtain ⟨⟨routine', args', locals', iterators', base', pc'⟩, callers',
      ⟨stack', depth', openIterators', made'⟩, sink'⟩ := state'
    have frames := states.frame
    have machines := states.machine
    have found := Related.getElem? frames.iterators slot
    dsimp only at found ⊢
    generalize iterators[slot]? = entry, iterators'[slot]? = entry' at found
    obtain rfl : openIterators = openIterators' := machines.openIterators
    cases found with
    | none => exact outOfBounds_lockstep states _ _
    | some both =>
      have written : link.Frames
          ⟨routine, args, locals, iterators.setIfInBounds slot (some _), base, pc⟩
          ⟨routine', args', locals', iterators'.setIfInBounds slot (some _), base', pc'⟩ :=
        ⟨frames.routine, frames.args, frames.locals,
          Related.setIfInBounds frames.iterators slot (.some items), frames.base, frames.pc⟩
      cases both <;>
        exact .running ⟨written, states.callers,
          ⟨machines.stack, machines.depth, rfl, machines.made⟩, states.sink⟩
  | _ => exact stop_lockstep states _

theorem release_lockstep (slot : Nat) :
    link.Lockstep (state.release slot) (state'.release slot) := by
  obtain ⟨⟨routine, args, locals, iterators, base, pc⟩, callers,
    ⟨stack, depth, openIterators, made⟩, sink⟩ := state
  obtain ⟨⟨routine', args', locals', iterators', base', pc'⟩, callers',
    ⟨stack', depth', openIterators', made'⟩, sink'⟩ := state'
  have frames := states.frame
  have machines := states.machine
  have found := Related.getElem? frames.iterators slot
  dsimp only at found
  simp only [State.release]
  generalize iterators[slot]? = entry, iterators'[slot]? = entry' at found
  obtain rfl : openIterators = openIterators' := machines.openIterators
  cases found with
  | none => exact .running states
  | some both =>
    cases both with
    | none => exact .running states
    | some items =>
      refine .running ⟨?_, states.callers, ⟨machines.stack, machines.depth, rfl, machines.made⟩,
        states.sink⟩
      exact ⟨frames.routine, frames.args, frames.locals,
        Related.setIfInBounds frames.iterators slot .none, frames.base, frames.pc⟩

end

theorem exec_lockstep (sound : link.Sound) (states : link.States state state') {instr instr' : Instr}
    (twins : instr.Twin link.calls link.records instr') :
    link.Lockstep (state.exec link.program link.limits instr)
      (state'.exec link.program' link.limits' instr') := by
  cases twins with
  | call known =>
    have routines := sound.routine known
    simp only [State.exec]
    generalize link.program.routine _ = found, link.program'.routine _ = found' at routines
    cases routines with
    | ok twins => exact call_lockstep sound states twins
    | error fault => exact stop_lockstep states _
  | construct known =>
    simp only [State.exec, sound.record known]
    split
    · exact construct_lockstep sound states _
    · exact stop_lockstep states _
  | loadField known index => exact loadField_lockstep sound states index
  | plain isPlain =>
    cases instr with
    | call | construct | loadField => cases isPlain
    | pushNumber value => exact push_lockstep sound states (.number value)
    | pushText value => exact push_lockstep sound states (.text value)
    | pushBool value => exact push_lockstep sound states (.bool value)
    | loadParam index => exact loadParam_lockstep sound states index
    | loadLocal slot => exact loadLocal_lockstep sound states slot
    | storeLocal slot => exact storeLocal_lockstep states slot
    | branch target => exact jump_lockstep states target
    | branchIfFalse target => exact branchIfFalse_lockstep states target
    | mark label => exact .running states
    | binary op => exact binary_lockstep sound states op
    | box => exact pop_lockstep states fun alike states => push_lockstep sound states (.boxed alike)
    | pop => exact pop_lockstep states fun _ states => .running states
    | generateList => exact generateList_lockstep sound states
    | writeLine => exact writeLine_lockstep states
    | acquire slot => exact acquire_lockstep states slot
    | advance slot exit => exact advance_lockstep sound states slot exit
    | release slot => exact release_lockstep states slot
    | ret => exact ret_lockstep sound states

theorem step_lockstep (sound : link.Sound) (states : link.States state state') :
    link.Lockstep (state.step link.program link.limits)
      (state'.step link.program' link.limits') := by
  obtain ⟨⟨routine, args, locals, iterators, base, pc⟩, callers, machine, sink⟩ := state
  obtain ⟨⟨routine', args', locals', iterators', base', pc'⟩, callers', machine', sink'⟩ := state'
  have frames := states.frame
  obtain rfl : pc = pc' := frames.pc
  have found := Related.getElem? frames.routine.code pc
  dsimp only at found
  simp only [State.step]
  generalize routine.code[pc]? = entry, routine'.code[pc]? = entry' at found
  cases found with
  | none => exact outOfBounds_lockstep states _ _
  | some twins =>
    refine exec_lockstep sound ?_ twins
    exact ⟨⟨frames.routine, frames.args, frames.locals, frames.iterators, frames.base, rfl⟩,
      states.callers, states.machine, states.sink⟩

theorem run_lockstep (sound : link.Sound) (fuel : Nat) (states : link.States state state') :
    link.Lockstep (state.run link.program link.limits fuel)
      (state'.run link.program' link.limits' fuel) := by
  induction fuel generalizing state state' with
  | zero => exact .running states
  | succ fuel ih =>
    have stepped := step_lockstep sound states
    rw [State.run, State.run]
    generalize state.step link.program link.limits = progress,
      state'.step link.program' link.limits' = progress' at stepped
    cases stepped with
    | running states => exact ih states
    | returned alike machines => exact .returned alike machines
    | stopped why depth openIterators => exact .stopped why depth openIterators
    | left excused => exact .left excused
    | right excused => exact .right excused

theorem runRoutine_lockstep (sound : link.Sound) (empty : link.under = []) (empty' : link.under' = [])
    (depths : machine.depth = machine'.depth)
    (opens : machine.openIterators = machine'.openIterators)
    (later : ∀ count, link.same (.made (machine.made + count)) (.made (machine'.made + count)))
    {routine routine' : Routine} (twins : routine.Twin link.calls link.records routine')
    {args args' : List Value} (alike : List.Forall₂ (Alike link.same) args args') (sink : Sink)
    (fuel : Nat) :
    link.Lockstep (machine.runRoutine link.program link.limits fuel routine args sink)
      (machine'.runRoutine link.program' link.limits' fuel routine' args' sink) := by
  obtain ⟨stack, depth, openIterators, made⟩ := machine
  obtain ⟨stack', depth', openIterators', made'⟩ := machine'
  dsimp only at depths opens later
  subst depths opens
  have operands : link.Stacks #[] #[] := ⟨[], [], by simp [empty], by simp [empty'], .nil⟩
  have running : link.Lockstep
      (State.run link.program link.limits fuel
        ⟨Frame.enter routine args.toArray 0, [], ⟨#[], depth + 1, openIterators, made⟩, sink⟩)
      (State.run link.program' link.limits' fuel
        ⟨Frame.enter routine' args'.toArray 0, [], ⟨#[], depth + 1, openIterators, made'⟩, sink⟩) := by
    refine run_lockstep sound fuel ⟨?_, .nil, ⟨operands, rfl, rfl, later⟩, rfl⟩
    exact .enter twins (by simpa using alike) operands
  simp only [Machine.runRoutine, Machine.start]
  cases sound.depth depth with
  | neither passes passes' =>
    rw [if_neg passes, if_neg passes']
    exact running
  | both failed failed' one =>
    rw [if_pos failed, if_pos failed', one]
    exact .stopped _ rfl rfl
  | left failed excused =>
    rw [if_pos failed]
    exact .left excused
  | right failed excused =>
    rw [if_pos failed]
    exact .right excused

end Link

/-! ### Programs that do the same -/

theorem Routine.Twin.refl (routine : Routine) : routine.Twin Eq Eq routine := by
  refine ⟨rfl, rfl, rfl, rfl, rfl, List.forall₂_same.mpr fun instr _ => ?_⟩
  cases instr with
  | call => exact .call rfl
  | construct => exact .construct rfl
  | loadField => exact .loadField rfl _
  | _ => exact .plain rfl

structure Program.Twin (calls records : Nat → Nat → Prop) (program program' : Program) : Prop where
  routine : ∀ {index index' : Nat}, calls index index' →
    Outcomes (Routine.Twin calls records) (program.routine index) (program'.routine index')
  record : ∀ {index index' : Nat}, records index index' →
    program.record index = program'.record index'
  entry : program.entry.Twin calls records program'.entry

/-- Two runs look the same from outside, the identities of records apart: what they wrote, what they
returned or why they stopped, and how many iterators are open afterwards. -/
inductive Progress.Same (same : Identity → Identity → Prop) : Progress → Progress → Prop
  | running {state state' : State} : Same same (.running state) (.running state')
  | returned {value value' : Option Value} {machine machine' : Machine} {sink : Sink}
      (alike : Option.Rel (Alike same) value value')
      (openIterators : machine.openIterators = machine'.openIterators) :
      Same same (.returned value machine sink) (.returned value' machine' sink)
  | stopped (why : Halt RuntimeError) {machine machine' : Machine} {sink : Sink}
      (openIterators : machine.openIterators = machine'.openIterators) :
      Same same (.stopped why machine sink) (.stopped why machine' sink)

namespace Program.Twin

variable {calls records : Nat → Nat → Prop} {program program' : Program}

theorem refl (program : Program) : program.Twin Eq Eq program := by
  refine ⟨?_, ?_, .refl _⟩
  · rintro index _ rfl
    cases program.routine index with
    | ok found => exact .ok (.refl found)
    | error fault => exact .error fault
  · rintro index _ rfl
    rfl

def link (calls records : Nat → Nat → Prop) (program program' : Program) (limits : Limits)
    (same : Identity → Identity → Prop) : Link where
  program := program
  program' := program'
  limits := limits
  limits' := limits
  under := []
  under' := []
  same := same
  calls := calls
  records := records
  excused _ := False
  excused' _ := False

theorem link_sound (twins : program.Twin calls records program') {limits : Limits}
    {same : Identity → Identity → Prop} (faithful : Faithful same) :
    (link calls records program program' limits same).Sound where
  faithful := faithful
  routine known := twins.routine known
  record known := twins.record known
  stack height := by
    by_cases full : limits.maxStack ≤ height
    · exact .both (by simpa [link] using full) (by simpa [link] using full) rfl
    · exact .neither (by simpa [link] using full) (by simpa [link] using full)
  depth depth := by
    by_cases full : limits.maxCallDepth ≤ depth
    · exact .both full full rfl
    · exact .neither full full
  range _ _ _ := .inl rfl

theorem runRoutine_same (twins : program.Twin calls records program') {limits : Limits}
    {same : Identity → Identity → Prop} (faithful : Faithful same) {machine machine' : Machine}
    (depths : machine.depth = machine'.depth)
    (opens : machine.openIterators = machine'.openIterators)
    (later : ∀ count, same (.made (machine.made + count)) (.made (machine'.made + count)))
    {routine routine' : Routine} (both : routine.Twin calls records routine')
    {args args' : List Value} (alike : List.Forall₂ (Alike same) args args') (sink : Sink)
    (fuel : Nat) :
    (machine.runRoutine program limits fuel routine args sink).Same same
      (machine'.runRoutine program' limits fuel routine' args' sink) := by
  have sound : (link calls records program program' limits same).Sound := twins.link_sound faithful
  have lockstep := Link.runRoutine_lockstep sound rfl rfl depths opens later both alike sink fuel
  dsimp only [link] at lockstep
  generalize machine.runRoutine _ _ _ _ _ _ = progress, machine'.runRoutine _ _ _ _ _ _ = progress'
    at lockstep ⊢
  cases lockstep with
  | running states => exact .running
  | returned alike machines => exact .returned alike machines.openIterators
  | stopped why depth openIterators => exact .stopped why openIterators
  | left excused => exact excused.elim
  | right excused => exact excused.elim

theorem execute_same (twins : program.Twin calls records program') (limits : Limits)
    (machine : Machine) (fuel : Nat) (sink : Sink) :
    (machine.execute program limits fuel sink).Same Eq
      (machine.execute program' limits fuel sink) := by
  refine twins.runRoutine_same ?_ rfl rfl (fun _ => rfl) twins.entry .nil sink fuel
  rintro _ _ _ _ rfl rfl
  exact Iff.rfl

end Program.Twin

end LetChain
