import LetChain.Machine.Run
import Mathlib

/-! What a machine counts. Between any two instructions the depth is the number of calls that have not
ended and the open iterators are those in their slots, so that nothing is left of either when a run
has ended, however it ended. -/

namespace LetChain

/-- The calls that have not ended, the current one first. -/
def State.frames (state : State) : List Frame := state.frame :: state.callers

structure Machine.Counts (machine : Machine) (limits : Limits) (frames : List Frame) : Prop where
  depth : machine.depth = frames.length
  bounded : machine.depth ≤ limits.maxCallDepth
  stack : machine.stack.size ≤ limits.maxStack
  iterators : machine.openIterators = (frames.map Frame.openCount).sum

def Progress.Balanced (limits : Limits) : Progress → Prop
  | .running state => state.machine.Counts limits state.frames
  | .returned _ machine _ | .stopped _ machine _ => machine.Counts limits []

namespace Frame

theorem openCount_enter (routine : Routine) (args : Array Value) (base : Nat) :
    (enter routine args base).openCount = 0 := by
  simp [openCount, enter, List.countP_replicate]

theorem openCount_pos (frame : Frame) {slot : Nat} {items : List Value}
    (found : frame.iterators[slot]? = some (some items)) : 0 < frame.openCount := by
  refine List.countP_pos_iff.mpr ⟨some items, ?_, rfl⟩
  exact Array.mem_toList_iff.mpr (Array.mem_of_getElem? found)

theorem openCount_set (frame : Frame) {slot : Nat} {previous : Option (List Value)}
    (found : frame.iterators[slot]? = some previous) (iterator : Option (List Value)) :
    openCount { frame with iterators := frame.iterators.setIfInBounds slot iterator } +
        (if previous.isSome then 1 else 0) =
      frame.openCount + if iterator.isSome then 1 else 0 := by
  obtain ⟨bound, here⟩ := Array.getElem?_eq_some_iff.mp found
  simp only [openCount, Array.toList_setIfInBounds]
  rw [List.countP_set (by simpa using bound), Array.getElem_toList, here]
  cases previous with
  | none => simp
  | some items =>
    have counted := frame.openCount_pos found
    rw [openCount] at counted
    simp only [Option.isSome_some, ↓reduceIte]
    omega

end Frame

namespace Machine.Counts

variable {machine : Machine} {limits : Limits} {frame : Frame} {frames : List Frame}

theorem shrink (counts : machine.Counts limits frames) {stack : Array Value}
    (less : stack.size ≤ machine.stack.size) :
    Counts { machine with stack } limits frames :=
  ⟨counts.depth, counts.bounded, Nat.le_trans less counts.stack, counts.iterators⟩

theorem leave (counts : machine.Counts limits (frame :: frames)) :
    (machine.leave frame).Counts limits frames := by
  obtain ⟨depth, bounded, stack, iterators⟩ := counts
  simp only [List.length_cons, List.map_cons, List.sum_cons] at depth iterators
  constructor
  · simp only [Machine.leave]
    omega
  · simp only [Machine.leave]
    omega
  · exact stack
  · simp only [Machine.leave]
    omega

theorem unwind (counts : machine.Counts limits frames) :
    (machine.unwind frames).Counts limits [] := by
  induction frames generalizing machine with
  | nil => exact counts
  | cons frame frames ih => exact ih counts.leave

theorem write (counts : machine.Counts limits (frame :: frames)) {slot opened : Nat}
    {previous : Option (List Value)} (found : frame.iterators[slot]? = some previous)
    (iterator : Option (List Value))
    (counted : opened + (if previous.isSome then 1 else 0) =
      machine.openIterators + if iterator.isSome then 1 else 0) :
    Counts { machine with openIterators := opened } limits
      ({ frame with iterators := frame.iterators.setIfInBounds slot iterator } :: frames) := by
  refine ⟨counts.depth, counts.bounded, counts.stack, ?_⟩
  have written := frame.openCount_set found iterator
  have iterators := counts.iterators
  simp only [List.map_cons, List.sum_cons] at iterators ⊢
  omega

end Machine.Counts

/-! ### Instructions -/

namespace State

variable {program : Program} {limits : Limits} {state : State}

theorem stop_balanced (counts : state.machine.Counts limits state.frames)
    (why : Halt RuntimeError) : (state.stop why).Balanced limits :=
  counts.unwind

theorem push_balanced (counts : state.machine.Counts limits state.frames) (value : Value) :
    (state.push limits value).Balanced limits := by
  rw [push]
  split
  · exact stop_balanced counts _
  · refine ⟨counts.depth, counts.bounded, ?_, counts.iterators⟩
    simp only [Array.size_push]
    omega

theorem pop_balanced {next : Value → State → Progress}
    (counts : state.machine.Counts limits state.frames)
    (rest : ∀ value state', state'.machine.Counts limits state'.frames →
      (next value state').Balanced limits) :
    (state.pop next).Balanced limits := by
  rw [pop]
  split
  · exact stop_balanced counts _
  · split
    · exact rest _ _ (counts.shrink (by simp))
    · exact stop_balanced counts _

theorem popMany_balanced {count : Nat} {next : Array Value → State → Progress}
    (counts : state.machine.Counts limits state.frames)
    (rest : ∀ values state', state'.machine.Counts limits state'.frames →
      (next values state').Balanced limits) :
    (state.popMany count next).Balanced limits := by
  rw [popMany]
  split
  · exact stop_balanced counts _
  · exact rest _ _ (counts.shrink (by simp))

theorem popNumber_balanced {instr : String} {next : Float → State → Progress}
    (counts : state.machine.Counts limits state.frames)
    (rest : ∀ number state', state'.machine.Counts limits state'.frames →
      (next number state').Balanced limits) :
    (state.popNumber instr next).Balanced limits := by
  refine pop_balanced counts fun value state' counts => ?_
  split
  · exact rest _ _ counts
  · exact stop_balanced counts _

theorem jump_balanced (counts : state.machine.Counts limits state.frames) (label : Label) :
    (state.jump label).Balanced limits := by
  rw [jump]
  split
  · exact ⟨counts.depth, counts.bounded, counts.stack, counts.iterators⟩
  · exact stop_balanced counts _

theorem construct_balanced (counts : state.machine.Counts limits state.frames)
    (layout : RecordLayout) : (state.construct limits layout).Balanced limits := by
  refine popMany_balanced counts fun values state' counts => ?_
  obtain ⟨frame, callers, ⟨stack, depth, openIterators, made⟩, sink⟩ := state'
  dsimp only
  split
  · exact stop_balanced counts _
  · refine push_balanced ?_ _
    exact ⟨counts.depth, counts.bounded, counts.stack, counts.iterators⟩

theorem call_balanced (counts : state.machine.Counts limits state.frames) (routine : Routine) :
    (state.call limits routine).Balanced limits := by
  refine popMany_balanced counts fun args state' counts => ?_
  obtain ⟨frame, callers, ⟨stack, depth, openIterators, made⟩, sink⟩ := state'
  dsimp only
  split
  · exact stop_balanced counts _
  · obtain ⟨same, bounded, fits, iterators⟩ := counts
    refine ⟨?_, ?_, fits, ?_⟩
    · simpa [frames] using same
    · dsimp only
      omega
    · simpa [frames, Frame.openCount_enter] using iterators

theorem ret_balanced (counts : state.machine.Counts limits state.frames) :
    (state.ret limits).Balanced limits := by
  obtain ⟨frame, callers, machine, sink⟩ := state
  have shorter : (machine.stack.shrink frame.base).size ≤ machine.stack.size := by
    rw [Array.size_shrink]
    omega
  have left := (counts.shrink shorter).leave
  cases callers with
  | nil => exact left
  | cons caller callers =>
    simp only [ret]
    split
    · exact push_balanced left _
    · exact stop_balanced left _

theorem acquire_balanced (counts : state.machine.Counts limits state.frames) (slot : Nat) :
    (state.acquire slot).Balanced limits := by
  refine pop_balanced counts fun value state' counts => ?_
  split
  · rename_i items
    obtain ⟨frame, callers, machine, sink⟩ := state'
    dsimp only
    split
    · exact stop_balanced counts _
    · rename_i previous found
      refine counts.write found (some items) ?_
      cases previous <;> rfl
  · exact stop_balanced counts _

theorem advance_balanced (counts : state.machine.Counts limits state.frames) (slot : Nat)
    (exit : Label) : (state.advance limits slot exit).Balanced limits := by
  obtain ⟨frame, callers, machine, sink⟩ := state
  simp only [advance]
  split
  · rename_i item rest found
    exact push_balanced (counts.write found (some rest) rfl) _
  · exact jump_balanced counts _
  · exact stop_balanced counts _

theorem release_balanced (counts : state.machine.Counts limits state.frames) (slot : Nat) :
    (state.release slot).Balanced limits := by
  obtain ⟨frame, callers, machine, sink⟩ := state
  simp only [release]
  split
  · rename_i items found
    refine counts.write found none ?_
    have counted := frame.openCount_pos found
    have iterators := counts.iterators
    simp only [frames, List.map_cons, List.sum_cons] at iterators
    simp only [Option.isSome_some, Option.isSome_none, ↓reduceIte, Bool.false_eq_true]
    omega
  · exact counts

theorem storeLocal_balanced (counts : state.machine.Counts limits state.frames) (slot : Nat) :
    (state.storeLocal slot).Balanced limits := by
  refine pop_balanced counts fun value state' counts => ?_
  dsimp only
  split
  · exact ⟨counts.depth, counts.bounded, counts.stack, counts.iterators⟩
  · exact stop_balanced counts _

theorem loadField_balanced (counts : state.machine.Counts limits state.frames) (index : Nat) :
    (state.loadField limits index).Balanced limits := by
  refine pop_balanced counts fun value state' counts => ?_
  split
  · split
    · exact push_balanced counts _
    · exact stop_balanced counts _
  · exact stop_balanced counts _

theorem branchIfFalse_balanced (counts : state.machine.Counts limits state.frames)
    (target : Label) : (state.branchIfFalse target).Balanced limits := by
  refine pop_balanced counts fun value state' counts => ?_
  split
  · exact counts
  · exact jump_balanced counts _
  · exact stop_balanced counts _

theorem binary_balanced (counts : state.machine.Counts limits state.frames) (op : BinaryInstr) :
    (state.binary limits op).Balanced limits := by
  refine pop_balanced counts fun rhs state' counts => ?_
  refine pop_balanced counts fun lhs state' counts => ?_
  split
  · exact push_balanced counts _
  · exact stop_balanced counts _

theorem generateList_balanced (counts : state.machine.Counts limits state.frames) :
    (state.generateList limits).Balanced limits := by
  refine popNumber_balanced counts fun step state' counts => ?_
  refine popNumber_balanced counts fun limit state' counts => ?_
  refine popNumber_balanced counts fun first state' counts => ?_
  split
  · exact push_balanced counts _
  · exact stop_balanced counts _

theorem writeLine_balanced (counts : state.machine.Counts limits state.frames) :
    state.writeLine.Balanced limits := by
  refine pop_balanced counts fun value state' counts => ?_
  obtain ⟨frame, callers, machine, sink⟩ := state'
  dsimp only
  split
  · exact counts
  · exact counts.unwind

theorem exec_balanced (counts : state.machine.Counts limits state.frames) (instr : Instr) :
    (state.exec program limits instr).Balanced limits := by
  cases instr with
  | pushNumber value => exact push_balanced counts _
  | pushText value => exact push_balanced counts _
  | pushBool value => exact push_balanced counts _
  | loadParam index =>
    simp only [exec]
    split
    · exact push_balanced counts _
    · exact stop_balanced counts _
  | loadLocal slot =>
    simp only [exec, loadLocal]
    split
    · exact push_balanced counts _
    · exact stop_balanced counts _
    · exact stop_balanced counts _
  | storeLocal slot => exact storeLocal_balanced counts slot
  | loadField record index => exact loadField_balanced counts index
  | construct record =>
    simp only [exec]
    split
    · exact construct_balanced counts _
    · exact stop_balanced counts _
  | call routine =>
    simp only [exec]
    split
    · exact call_balanced counts _
    · exact stop_balanced counts _
  | branch target => exact jump_balanced counts target
  | branchIfFalse target => exact branchIfFalse_balanced counts target
  | mark label => exact counts
  | binary op => exact binary_balanced counts op
  | box => exact pop_balanced counts fun value state' counts => push_balanced counts _
  | pop => exact pop_balanced counts fun value state' counts => counts
  | generateList => exact generateList_balanced counts
  | writeLine => exact writeLine_balanced counts
  | acquire slot => exact acquire_balanced counts slot
  | advance slot exit => exact advance_balanced counts slot exit
  | release slot => exact release_balanced counts slot
  | ret => exact ret_balanced counts

theorem step_balanced (counts : state.machine.Counts limits state.frames) :
    (state.step program limits).Balanced limits := by
  simp only [step]
  split
  · refine exec_balanced ?_ _
    exact ⟨counts.depth, counts.bounded, counts.stack, counts.iterators⟩
  · exact stop_balanced counts _

theorem run_balanced (fuel : Nat) (counts : state.machine.Counts limits state.frames) :
    (state.run program limits fuel).Balanced limits := by
  induction fuel generalizing state with
  | zero => exact counts
  | succ fuel ih =>
    have stepped : (state.step program limits).Balanced limits := step_balanced counts
    rw [run]
    split
    · rename_i state' running
      rw [running] at stepped
      exact ih stepped
    · exact stepped

end State

end LetChain
