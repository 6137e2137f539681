import LetChain.Proofs.Machine.Lockstep
import LetChain.Proofs.Machine.Resources

/-! A call by itself. It never touches the operands that lie on the stack when it starts and leaves
exactly them when it returns, what it does depends neither on them nor on the calls that wait for it,
and those go on from there. -/

namespace LetChain

open Value (Alike)

/-- A routine that has just been entered, with no call waiting for it. -/
def Machine.enter (machine : Machine) (routine : Routine) (args : Array Value) (sink : Sink) : State :=
  ⟨Frame.enter routine args machine.stack.size, [], machine, sink⟩

/-! ### Calls that wait -/

/-- A state with more calls waiting below those that wait already. -/
def State.onto (state : State) (waiting : List Frame) : State :=
  { state with callers := state.callers ++ waiting }

/-- What the progress of a call means to the calls that wait for it. Where it returns, the first of
them takes its value and goes on. -/
def Progress.onto (limits : Limits) (waiting : List Frame) : Progress → Progress
  | .running state => .running (state.onto waiting)
  | .stopped why machine sink => .stopped why (machine.unwind waiting) sink
  | .returned value machine sink =>
    match waiting, value with
    | [], value => .returned value machine sink
    | caller :: callers, some value => State.push ⟨caller, callers, machine, sink⟩ limits value
    | caller :: callers, none => State.underflow ⟨caller, callers, machine, sink⟩

namespace State

variable {program : Program} {limits : Limits} (state : State) (waiting : List Frame)

theorem stop_onto (why : Halt RuntimeError) :
    (state.onto waiting).stop why = (state.stop why).onto limits waiting := by
  simp only [stop, onto, Progress.onto, Machine.unwind, List.foldl_cons, List.foldl_append]

theorem push_onto (value : Value) :
    (state.onto waiting).push limits value = (state.push limits value).onto limits waiting := by
  simp only [push, apply_ite (Progress.onto limits waiting)]
  congr 1
  exact stop_onto state waiting _

theorem pop_onto {next : Value → State → Progress}
    (rest : ∀ value state, next value (onto state waiting) = (next value state).onto limits waiting) :
    (state.onto waiting).pop next = (state.pop next).onto limits waiting := by
  obtain ⟨frame, callers, ⟨stack, depth, openIterators, made⟩, sink⟩ := state
  rw [onto]
  simp only [pop]
  by_cases empty : stack.size ≤ frame.base
  · rw [if_pos empty, if_pos empty]
    exact stop_onto ⟨frame, callers, _, sink⟩ waiting _
  · rw [if_neg empty, if_neg empty]
    cases stack.back? with
    | none => exact stop_onto ⟨frame, callers, _, sink⟩ waiting _
    | some value => exact rest value ⟨frame, callers, _, sink⟩

theorem popMany_onto {count : Nat} {next : Array Value → State → Progress}
    (rest : ∀ values state,
      next values (onto state waiting) = (next values state).onto limits waiting) :
    (state.onto waiting).popMany count next = (state.popMany count next).onto limits waiting := by
  obtain ⟨frame, callers, ⟨stack, depth, openIterators, made⟩, sink⟩ := state
  rw [onto]
  simp only [popMany]
  by_cases few : stack.size < frame.base + count
  · rw [if_pos few, if_pos few]
    exact stop_onto ⟨frame, callers, _, sink⟩ waiting _
  · rw [if_neg few, if_neg few]
    exact rest _ ⟨frame, callers, _, sink⟩

theorem popNumber_onto {instr : String} {next : Float → State → Progress}
    (rest : ∀ number state,
      next number (onto state waiting) = (next number state).onto limits waiting) :
    (state.onto waiting).popNumber instr next =
      (state.popNumber instr next).onto limits waiting := by
  refine pop_onto state waiting fun value state => ?_
  cases value with
  | number number => exact rest number state
  | _ => exact stop_onto state waiting _

theorem jump_onto (label : Label) :
    (state.onto waiting).jump label = (state.jump label).onto limits waiting := by
  obtain ⟨⟨routine, args, locals, iterators, base, pc⟩, callers, machine, sink⟩ := state
  rw [onto]
  simp only [jump]
  cases routine.labels[label]? with
  | none => exact stop_onto ⟨_, callers, machine, sink⟩ waiting _
  | some target => rfl

theorem loadLocal_onto (slot : Nat) :
    (state.onto waiting).loadLocal limits slot =
      (state.loadLocal limits slot).onto limits waiting := by
  rw [loadLocal, loadLocal, onto]
  dsimp only
  rcases state.frame.locals[slot]? with _ | _ | value
  · exact stop_onto state waiting _
  · exact stop_onto state waiting _
  · exact push_onto state waiting value

theorem storeLocal_onto (slot : Nat) :
    (state.onto waiting).storeLocal slot = (state.storeLocal slot).onto limits waiting := by
  refine pop_onto state waiting fun value state => ?_
  obtain ⟨⟨routine, args, locals, iterators, base, pc⟩, callers, machine, sink⟩ := state
  rw [onto]
  dsimp only
  by_cases bound : slot < locals.size
  · rw [if_pos bound, if_pos bound]
    rfl
  · rw [if_neg bound, if_neg bound]
    exact stop_onto ⟨_, callers, machine, sink⟩ waiting _

theorem loadField_onto (index : Nat) :
    (state.onto waiting).loadField limits index =
      (state.loadField limits index).onto limits waiting := by
  refine pop_onto state waiting fun value state => ?_
  cases value with
  | record identity name fields values =>
    dsimp only
    cases values[index]? with
    | none => exact stop_onto state waiting _
    | some value => exact push_onto state waiting value
  | _ => exact stop_onto state waiting _

theorem construct_onto (layout : RecordLayout) :
    (state.onto waiting).construct limits layout =
      (state.construct limits layout).onto limits waiting := by
  refine popMany_onto state waiting fun args state => ?_
  obtain ⟨frame, callers, ⟨stack, depth, openIterators, made⟩, sink⟩ := state
  rw [onto]
  dsimp only
  cases fillFields _ (args.toList.zip layout.order) with
  | error fault => exact stop_onto ⟨frame, callers, _, sink⟩ waiting _
  | ok values => exact push_onto ⟨frame, callers, _, sink⟩ waiting _

theorem call_onto (routine : Routine) :
    (state.onto waiting).call limits routine =
      (state.call limits routine).onto limits waiting := by
  refine popMany_onto state waiting fun args state => ?_
  obtain ⟨frame, callers, ⟨stack, depth, openIterators, made⟩, sink⟩ := state
  rw [onto]
  dsimp only
  by_cases full : limits.maxCallDepth ≤ depth
  · rw [if_pos full, if_pos full]
    exact stop_onto ⟨frame, callers, _, sink⟩ waiting _
  · rw [if_neg full, if_neg full]
    rfl

theorem ret_onto : (state.onto waiting).ret limits = (state.ret limits).onto limits waiting := by
  obtain ⟨frame, callers, ⟨stack, depth, openIterators, made⟩, sink⟩ := state
  rw [onto]
  simp only [ret]
  generalize (if frame.base < stack.size then stack.back? else none) = value
  cases callers with
  | nil => cases waiting <;> cases value <;> rfl
  | cons caller callers =>
    cases value with
    | none => exact stop_onto ⟨caller, callers, _, sink⟩ waiting _
    | some value => exact push_onto ⟨caller, callers, _, sink⟩ waiting _

theorem branchIfFalse_onto (target : Label) :
    (state.onto waiting).branchIfFalse target =
      (state.branchIfFalse target).onto limits waiting := by
  refine pop_onto state waiting fun value state => ?_
  cases value with
  | bool value =>
    cases value with
    | true => rfl
    | false => exact jump_onto state waiting target
  | _ => exact stop_onto state waiting _

theorem binary_onto (op : BinaryInstr) :
    (state.onto waiting).binary limits op = (state.binary limits op).onto limits waiting := by
  refine pop_onto state waiting fun rhs state => ?_
  refine pop_onto state waiting fun lhs state => ?_
  cases op.apply lhs rhs with
  | error error => exact stop_onto state waiting _
  | ok value => exact push_onto state waiting value

theorem generateList_onto :
    (state.onto waiting).generateList limits =
      (state.generateList limits).onto limits waiting := by
  refine popNumber_onto state waiting fun step state => ?_
  refine popNumber_onto state waiting fun limit state => ?_
  refine popNumber_onto state waiting fun first state => ?_
  cases Range.generate first limit step limits.maxRangeLength with
  | error error => exact stop_onto state waiting _
  | ok items => exact push_onto state waiting _

theorem writeLine_onto :
    (state.onto waiting).writeLine = state.writeLine.onto limits waiting := by
  refine pop_onto state waiting fun value state => ?_
  obtain ⟨frame, callers, machine, sink⟩ := state
  rw [onto]
  dsimp only
  match sink.write (value.render ++ "\n") with
  | (sink, true) => rfl
  | (sink, false) => exact stop_onto ⟨frame, callers, machine, sink⟩ waiting _

theorem acquire_onto (slot : Nat) :
    (state.onto waiting).acquire slot = (state.acquire slot).onto limits waiting := by
  refine pop_onto state waiting fun value state => ?_
  cases value with
  | seq items =>
    obtain ⟨⟨routine, args, locals, iterators, base, pc⟩, callers, machine, sink⟩ := state
    rw [onto]
    dsimp only
    cases iterators[slot]? with
    | none => exact stop_onto ⟨_, callers, machine, sink⟩ waiting _
    | some previous => rfl
  | _ => exact stop_onto state waiting _

theorem advance_onto (slot : Nat) (exit : Label) :
    (state.onto waiting).advance limits slot exit =
      (state.advance limits slot exit).onto limits waiting := by
  obtain ⟨⟨routine, args, locals, iterators, base, pc⟩, callers, machine, sink⟩ := state
  rw [onto]
  simp only [advance]
  rcases iterators[slot]? with _ | _ | _ | ⟨item, rest⟩
  · exact stop_onto ⟨_, callers, machine, sink⟩ waiting _
  · exact stop_onto ⟨_, callers, machine, sink⟩ waiting _
  · exact jump_onto ⟨_, callers, machine, sink⟩ waiting exit
  · exact push_onto ⟨_, callers, machine, sink⟩ waiting item

theorem release_onto (slot : Nat) :
    (state.onto waiting).release slot = (state.release slot).onto limits waiting := by
  obtain ⟨⟨routine, args, locals, iterators, base, pc⟩, callers, machine, sink⟩ := state
  rw [onto]
  simp only [release]
  rcases iterators[slot]? with _ | _ | items <;> rfl

theorem exec_onto (instr : Instr) :
    (state.onto waiting).exec program limits instr =
      (state.exec program limits instr).onto limits waiting := by
  cases instr with
  | pushNumber value => exact push_onto state waiting _
  | pushText value => exact push_onto state waiting _
  | pushBool value => exact push_onto state waiting _
  | loadParam index =>
    rw [exec, exec, onto]
    dsimp only
    cases state.frame.args[index]? with
    | none => exact stop_onto state waiting _
    | some value => exact push_onto state waiting value
  | loadLocal slot => exact loadLocal_onto state waiting slot
  | storeLocal slot => exact storeLocal_onto state waiting slot
  | loadField record index => exact loadField_onto state waiting index
  | construct record =>
    simp only [exec]
    cases program.record record with
    | error fault => exact stop_onto state waiting _
    | ok layout => exact construct_onto state waiting layout
  | call routine =>
    simp only [exec]
    cases program.routine routine with
    | error fault => exact stop_onto state waiting _
    | ok routine => exact call_onto state waiting routine
  | branch target => exact jump_onto state waiting target
  | branchIfFalse target => exact branchIfFalse_onto state waiting target
  | mark label => rfl
  | binary op => exact binary_onto state waiting op
  | box =>
    simp only [exec]
    exact pop_onto state waiting fun value state => push_onto state waiting (.boxed value)
  | pop => exact pop_onto state waiting fun value state => rfl
  | generateList => exact generateList_onto state waiting
  | writeLine => exact writeLine_onto state waiting
  | acquire slot => exact acquire_onto state waiting slot
  | advance slot exit => exact advance_onto state waiting slot exit
  | release slot => exact release_onto state waiting slot
  | ret => exact ret_onto state waiting

theorem step_onto :
    (state.onto waiting).step program limits =
      (state.step program limits).onto limits waiting := by
  obtain ⟨⟨routine, args, locals, iterators, base, pc⟩, callers, machine, sink⟩ := state
  rw [onto]
  simp only [step]
  cases routine.code[pc]? with
  | none => exact stop_onto ⟨_, callers, machine, sink⟩ waiting _
  | some instr => exact exec_onto ⟨_, callers, machine, sink⟩ waiting instr

theorem run_onto (fuel : Nat) :
    ∃ taken ≤ fuel,
      (state.onto waiting).run program limits taken =
          (state.run program limits fuel).onto limits waiting ∧
        (∀ state', state.run program limits fuel = .running state' → taken = fuel) := by
  induction fuel generalizing state with
  | zero => exact ⟨0, Nat.le_refl 0, rfl, fun _ _ => rfl⟩
  | succ fuel ih =>
    have stepped : (state.onto waiting).step program limits =
      (state.step program limits).onto limits waiting := step_onto state waiting
    cases progress : state.step program limits with
    | running next =>
      obtain ⟨taken, bound, ran, whole⟩ := ih next
      refine ⟨taken + 1, Nat.succ_le_succ bound, ?_, ?_⟩
      · rw [run, run, stepped, progress]
        exact ran
      · intro state' running
        rw [run, progress] at running
        rw [whole state' running]
    | _ =>
      -- The call ends with this instruction; the fuel that is left is for the others.
      refine ⟨1, by omega, ?_, ?_⟩
      · rw [run, run, stepped, progress]
        dsimp only
        split
        · rename_i next resumed
          rw [run, resumed]
        · rfl
      · intro state' running
        rw [run, progress] at running
        cases running

end State

/-! ### Operands that lie below -/

/-- Calls that all stand at a height of the stack or above it, the first of them just there. -/
inductive Frame.Rest (height : Nat) : List Frame → Prop
  | first {frame : Frame} (base : frame.base = height) : Rest height [frame]
  | above {frame : Frame} {frames : List Frame} (base : height ≤ frame.base)
      (others : Rest height frames) : Rest height (frame :: frames)

namespace Frame.Rest

variable {height : Nat} {frame frame' : Frame} {frames : List Frame}

theorem base_le (rest : Rest height (frame :: frames)) : height ≤ frame.base := by
  cases rest with
  | first base => exact base.ge
  | above base others => exact base

theorem replace (rest : Rest height (frame :: frames)) (same : frame'.base = frame.base) :
    Rest height (frame' :: frames) := by
  cases rest with
  | first base => exact .first (same.trans base)
  | above base others => exact .above (base.trans_eq same.symm) others

end Frame.Rest

/-- A state whose calls leave some operands alone. -/
structure State.Above (below : List Value) (state : State) : Prop where
  stack : below <+: state.machine.stack.toList
  calls : Frame.Rest below.length state.frames

/-- A run leaves some operands alone: they stay where they are, and nothing else is left when it has
returned. -/
def Progress.Above (below : List Value) : Progress → Prop
  | .running state => state.Above below
  | .returned _ machine _ => machine.stack.toList = below
  | .stopped _ machine _ => below <+: machine.stack.toList

theorem Machine.unwind_stack (machine : Machine) (frames : List Frame) :
    (machine.unwind frames).stack = machine.stack := by
  induction frames generalizing machine with
  | nil => rfl
  | cons frame frames ih => exact ih (machine.leave frame)

namespace State

variable {program : Program} {limits : Limits} {state : State} {below : List Value}

theorem stop_above (above : state.Above below) (why : Halt RuntimeError) :
    (state.stop why).Above below := by
  simp only [stop, Progress.Above, Machine.unwind_stack]
  exact above.stack

theorem push_above (above : state.Above below) (value : Value) :
    (state.push limits value).Above below := by
  rw [push]
  split
  · exact stop_above above _
  · refine ⟨?_, above.calls⟩
    dsimp only
    rw [Array.toList_push]
    exact above.stack.trans (List.prefix_append _ _)

theorem Above.cut (above : state.Above below) {height : Nat} (high : state.frame.base ≤ height) :
    below <+: state.machine.stack.toList.take height := by
  obtain ⟨top, eq⟩ := above.stack
  have room : below.length ≤ height := above.calls.base_le.trans high
  rw [← eq, List.take_append, List.take_of_length_le room]
  exact List.prefix_append _ _

theorem pop_above {next : Value → State → Progress} (above : state.Above below)
    (rest : ∀ value state', state'.Above below → (next value state').Above below) :
    (state.pop next).Above below := by
  rw [pop]
  split
  · exact stop_above above _
  · split
    · refine rest _ _ ⟨?_, above.calls⟩
      dsimp only
      rw [Array.toList_pop, List.dropLast_eq_take]
      exact above.cut (by rw [Array.length_toList]; omega)
    · exact stop_above above _

theorem popMany_above {count : Nat} {next : Array Value → State → Progress}
    (above : state.Above below)
    (rest : ∀ values state', state'.Above below → (next values state').Above below) :
    (state.popMany count next).Above below := by
  rw [popMany]
  split
  · exact stop_above above _
  · refine rest _ _ ⟨?_, above.calls⟩
    dsimp only
    rw [Array.toList_shrink]
    exact above.cut (by omega)

theorem popNumber_above {instr : String} {next : Float → State → Progress}
    (above : state.Above below)
    (rest : ∀ number state', state'.Above below → (next number state').Above below) :
    (state.popNumber instr next).Above below := by
  refine pop_above above fun value state' above => ?_
  split
  · exact rest _ _ above
  · exact stop_above above _

theorem jump_above (above : state.Above below) (label : Label) :
    (state.jump label).Above below := by
  rw [jump]
  split
  · exact ⟨above.stack, above.calls.replace rfl⟩
  · exact stop_above above _

theorem construct_above (above : state.Above below) (layout : RecordLayout) :
    (state.construct limits layout).Above below := by
  refine popMany_above above fun values state' above => ?_
  dsimp only
  split
  · exact stop_above above _
  · refine push_above ?_ _
    exact ⟨above.stack, above.calls⟩

theorem call_above (above : state.Above below) (routine : Routine) :
    (state.call limits routine).Above below := by
  refine popMany_above above fun args state' above => ?_
  dsimp only
  split
  · exact stop_above above _
  · exact ⟨above.stack, .above above.stack.length_le above.calls⟩

theorem ret_above (above : state.Above below) : (state.ret limits).Above below := by
  obtain ⟨frame, callers, ⟨stack, depth, openIterators, made⟩, sink⟩ := state
  have kept := above.cut (Nat.le_refl _)
  have calls := above.calls
  dsimp only at kept
  rw [← Array.toList_shrink] at kept
  cases calls with
  | first base =>
    -- The first call ends, and the stack is cut where it stood.
    have size : (stack.shrink frame.base).toList.length ≤ below.length := by
      rw [Array.toList_shrink, ← base]
      exact List.length_take_le _ _
    exact (kept.eq_of_length_le size).symm
  | above base others =>
    cases callers with
    | nil => cases others
    | cons caller callers =>
      have back : State.Above below
          ⟨caller, callers,
            Machine.leave ⟨stack.shrink frame.base, depth, openIterators, made⟩ frame, sink⟩ :=
        ⟨kept, others⟩
      simp only [ret]
      split
      · exact push_above back _
      · exact stop_above back _

theorem acquire_above (above : state.Above below) (slot : Nat) :
    (state.acquire slot).Above below := by
  refine pop_above above fun value state' above => ?_
  split
  · dsimp only
    split
    · exact stop_above above _
    · exact ⟨above.stack, above.calls.replace rfl⟩
  · exact stop_above above _

theorem advance_above (above : state.Above below) (slot : Nat) (exit : Label) :
    (state.advance limits slot exit).Above below := by
  simp only [advance]
  split
  · refine push_above ?_ _
    exact ⟨above.stack, above.calls.replace rfl⟩
  · exact jump_above above _
  · exact stop_above above _

theorem release_above (above : state.Above below) (slot : Nat) :
    (state.release slot).Above below := by
  simp only [release]
  split
  · exact ⟨above.stack, above.calls.replace rfl⟩
  · exact above

theorem storeLocal_above (above : state.Above below) (slot : Nat) :
    (state.storeLocal slot).Above below := by
  refine pop_above above fun value state' above => ?_
  dsimp only
  split
  · exact ⟨above.stack, above.calls.replace rfl⟩
  · exact stop_above above _

theorem loadField_above (above : state.Above below) (index : Nat) :
    (state.loadField limits index).Above below := by
  refine pop_above above fun value state' above => ?_
  split
  · split
    · exact push_above above _
    · exact stop_above above _
  · exact stop_above above _

theorem branchIfFalse_above (above : state.Above below) (target : Label) :
    (state.branchIfFalse target).Above below := by
  refine pop_above above fun value state' above => ?_
  split
  · exact above
  · exact jump_above above _
  · exact stop_above above _

theorem binary_above (above : state.Above below) (op : BinaryInstr) :
    (state.binary limits op).Above below := by
  refine pop_above above fun rhs state' above => ?_
  refine pop_above above fun lhs state' above => ?_
  split
  · exact push_above above _
  · exact stop_above above _

theorem generateList_above (above : state.Above below) :
    (state.generateList limits).Above below := by
  refine popNumber_above above fun step state' above => ?_
  refine popNumber_above above fun limit state' above => ?_
  refine popNumber_above above fun first state' above => ?_
  split
  · exact push_above above _
  · exact stop_above above _

theorem writeLine_above (above : state.Above below) : state.writeLine.Above below := by
  refine pop_above above fun value state' above => ?_
  dsimp only
  split
  · exact ⟨above.stack, above.calls⟩
  · refine stop_above ?_ _
    exact ⟨above.stack, above.calls⟩

theorem exec_above (above : state.Above below) (instr : Instr) :
    (state.exec program limits instr).Above below := by
  cases instr with
  | pushNumber value => exact push_above above _
  | pushText value => exact push_above above _
  | pushBool value => exact push_above above _
  | loadParam index =>
    simp only [exec]
    split
    · exact push_above above _
    · exact stop_above above _
  | loadLocal slot =>
    simp only [exec, loadLocal]
    split
    · exact push_above above _
    · exact stop_above above _
    · exact stop_above above _
  | storeLocal slot => exact storeLocal_above above slot
  | loadField record index => exact loadField_above above index
  | construct record =>
    simp only [exec]
    split
    · exact construct_above above _
    · exact stop_above above _
  | call routine =>
    simp only [exec]
    split
    · exact call_above above _
    · exact stop_above above _
  | branch target => exact jump_above above target
  | branchIfFalse target => exact branchIfFalse_above above target
  | mark label => exact above
  | binary op => exact binary_above above op
  | box => exact pop_above above fun value state' above => push_above above _
  | pop => exact pop_above above fun value state' above => above
  | generateList => exact generateList_above above
  | writeLine => exact writeLine_above above
  | acquire slot => exact acquire_above above slot
  | advance slot exit => exact advance_above above slot exit
  | release slot => exact release_above above slot
  | ret => exact ret_above above

theorem step_above (above : state.Above below) : (state.step program limits).Above below := by
  simp only [step]
  split
  · refine exec_above ?_ _
    exact ⟨above.stack, above.calls.replace rfl⟩
  · exact stop_above above _

theorem run_above (fuel : Nat) (above : state.Above below) :
    (state.run program limits fuel).Above below := by
  induction fuel generalizing state with
  | zero => exact above
  | succ fuel ih =>
    have stepped : (state.step program limits).Above below := step_above above
    rw [run]
    split
    · rename_i state' running
      rw [running] at stepped
      exact ih stepped
    · exact stepped

end State

theorem Machine.enter_above (machine : Machine) (routine : Routine) (args : Array Value)
    (sink : Sink) : (machine.enter routine args sink).Above machine.stack.toList :=
  ⟨List.prefix_rfl, .first rfl⟩

/-! ### Other operands below -/

/-- What a run has written so far. -/
def Progress.sink : Progress → Sink
  | .running state => state.sink
  | .returned _ _ sink | .stopped _ _ sink => sink

def Progress.Overflows (limits : Limits) (progress : Progress) : Prop :=
  ∃ machine sink, progress = .stopped (.error (.stackOverflow limits.maxStack)) machine sink

namespace Link

variable (program : Program) (limits : Limits) (same : Identity → Identity → Prop)
  (below below' : List Value)

def lifted : Link where
  program := program
  program' := program
  limits := limits
  limits' := limits
  under := below
  under' := below'
  same := same
  calls := Eq
  records := Eq
  excused error := error = .stackOverflow limits.maxStack
  excused' error := error = .stackOverflow limits.maxStack

variable {same}

theorem lifted_sound (faithful : Faithful same) :
    (lifted program limits same below below').Sound where
  faithful := faithful
  routine known := (Program.Twin.refl program).routine known
  record known := (Program.Twin.refl program).record known
  stack height := by
    by_cases full : limits.maxStack ≤ below.length + height
    · exact .left full rfl
    · by_cases full' : limits.maxStack ≤ below'.length + height
      · exact .right full' rfl
      · exact .neither full full'
  depth depth := by
    by_cases full : limits.maxCallDepth ≤ depth
    · exact .both full full rfl
    · exact .neither full full
  range _ _ _ := .inl rfl

theorem Lockstep.seen {program : Program} {limits : Limits} {below below' : List Value}
    {progress progress' : Progress}
    (lockstep : (lifted program limits same below below').Lockstep progress progress') :
    progress.Overflows limits ∨ progress'.Overflows limits ∨
      progress.Same same progress' ∧ progress.sink = progress'.sink := by
  cases lockstep with
  | running states => exact .inr (.inr ⟨.running, states.sink⟩)
  | returned alike machines => exact .inr (.inr ⟨.returned alike machines.openIterators, rfl⟩)
  | stopped why depth openIterators => exact .inr (.inr ⟨.stopped why openIterators, rfl⟩)
  | left excused =>
    obtain rfl := excused
    exact .inl ⟨_, _, rfl⟩
  | right excused =>
    obtain rfl := excused
    exact .inr (.inl ⟨_, _, rfl⟩)

end Link

namespace Machine

variable {same : Identity → Identity → Prop} {below below' : Array Value} {made made' : Nat}
  {args args' : Array Value}

theorem enter_lockstep (program : Program) (limits : Limits) (faithful : Faithful same)
    (later : ∀ count, same (.made (made + count)) (.made (made' + count)))
    (alike : List.Forall₂ (Alike same) args.toList args'.toList) (routine : Routine)
    (depth openIterators : Nat) (sink : Sink) (fuel : Nat) :
    (Link.lifted program limits same below.toList below'.toList).Lockstep
      ((enter ⟨below, depth, openIterators, made⟩ routine args sink).run program limits fuel)
      ((enter ⟨below', depth, openIterators, made'⟩ routine args' sink).run program limits fuel) := by
  have sound := Link.lifted_sound program limits below.toList below'.toList faithful
  have operands : (Link.lifted program limits same below.toList below'.toList).Stacks below below' :=
    ⟨[], [], (List.append_nil _).symm, (List.append_nil _).symm, .nil⟩
  refine Link.run_lockstep sound fuel ⟨?_, .nil, ⟨operands, rfl, rfl, later⟩, rfl⟩
  exact .enter (.refl routine) alike operands

/-- A call stands apart from the operands that it finds on the stack. They stay where they are, under
all nested calls too, and when it has returned nothing else is left. Which calls wait for it does not
matter; they go on when it ends. What it writes, returns or fails with is the same above other
operands, records apart, which answer to each other one to one, unless the stack overflows in one of
the two runs. -/
theorem enter_isolated (program : Program) (limits : Limits) (faithful : Faithful same)
    (later : ∀ count, same (.made (made + count)) (.made (made' + count)))
    (alike : List.Forall₂ (Alike same) args.toList args'.toList) (routine : Routine)
    (below below' : Array Value) (depth openIterators : Nat) (sink : Sink) (fuel : Nat)
    (waiting : List Frame) :
    let call := enter ⟨below, depth, openIterators, made⟩ routine args sink
    let call' := enter ⟨below', depth, openIterators, made'⟩ routine args' sink
    let progress := call.run program limits fuel
    let progress' := call'.run program limits fuel
    progress.Above below.toList ∧
      (∃ taken ≤ fuel,
        (call.onto waiting).run program limits taken = progress.onto limits waiting ∧
          ∀ state, progress = .running state → taken = fuel) ∧
      (progress.Overflows limits ∨ progress'.Overflows limits ∨
        progress.Same same progress' ∧ progress.sink = progress'.sink) := by
  refine ⟨?_, ?_, ?_⟩
  · exact State.run_above fuel (enter_above ⟨below, depth, openIterators, made⟩ routine args sink)
  · exact State.run_onto _ waiting fuel
  · exact (enter_lockstep program limits faithful later alike routine depth openIterators sink
      fuel).seen

def outerRoutine : Routine :=
  ⟨"Outer", 1, 0, 0, #[.pushBool true, .loadParam 0, .call 1, .ret], #[]⟩

def nestedCall : Program where
  routines := #[outerRoutine, ⟨"Make", 1, 0, 0, #[.loadParam 0, .construct 0, .ret], #[]⟩]
  records := #[⟨"P", ["x"], [0]⟩]
  entry := Program.entryOf 0

def sevenLater (identity identity' : Identity) : Prop :=
  ∃ count, identity = .made count ∧ identity' = .made (7 + count)

theorem sevenLater_faithful : Faithful sevenLater := by
  rintro _ _ _ _ ⟨count, rfl, rfl⟩ ⟨count', rfl, rfl⟩
  simp

theorem enter_isolated_nested :
    Progress.Above [.text "a", .text "b"]
        (.returned (some (.record (.made 0) "P" ["x"] [.bool false]))
          ⟨#[.text "a", .text "b"], 4, 0, 1⟩ .unlimited) ∧
      (∃ taken ≤ 7,
        (State.onto (enter ⟨#[.text "a", .text "b"], 5, 0, 0⟩ outerRoutine #[.bool false] .unlimited)
            [Frame.enter (Program.entryOf 0) #[] 1]).run nestedCall .standard taken =
          .running ⟨Frame.enter (Program.entryOf 0) #[] 1, [],
            ⟨#[.text "a", .text "b", .record (.made 0) "P" ["x"] [.bool false]], 4, 0, 1⟩,
            .unlimited⟩) ∧
      Progress.Same sevenLater
        (.returned (some (.record (.made 0) "P" ["x"] [.bool false]))
          ⟨#[.text "a", .text "b"], 4, 0, 1⟩ .unlimited)
        (.returned (some (.record (.made 7) "P" ["x"] [.bool false])) ⟨#[], 4, 0, 8⟩ .unlimited) := by
  have alike : List.Forall₂ (Alike sevenLater) #[.bool false].toList #[.bool false].toList :=
    .cons (.bool false) .nil
  obtain ⟨above, ⟨taken, bound, ran, _⟩, seen⟩ := enter_isolated nestedCall .standard
    sevenLater_faithful (fun count => ⟨count, congrArg Identity.made (Nat.zero_add count), rfl⟩) alike
    outerRoutine #[.text "a", .text "b"] #[] 5 0 .unlimited 7 [Frame.enter (Program.entryOf 0) #[] 1]
  refine ⟨above, ⟨taken, bound, ran⟩, ?_⟩
  rcases seen with ⟨_, _, overflow⟩ | ⟨_, _, overflow⟩ | ⟨same, _⟩
  · cases overflow
  · cases overflow
  · exact same

end Machine

end LetChain
