import LetChain.Machine.Run
import LetChain.Proofs.Code.Heights

/-! Room on the stack. In verified code a call has as many operands on the stack as its place in the code
says, so that all calls together need no more than the bound of the program for each. -/

namespace LetChain

def Program.Measured (program : Program) : Prop :=
  ∀ routine ∈ program.entry :: program.routines.toList, ∃ result, routine.Verified program result

theorem BinaryInstr.textOperand_error {instr : String} {value : Value} {error : RuntimeError}
    (failed : textOperand instr value = .error error) (limit : Nat) : error ≠ .stackOverflow limit := by
  rintro rfl
  cases value <;> simp [textOperand] at failed

theorem BinaryInstr.apply_error {op : BinaryInstr} {lhs rhs : Value} {error : RuntimeError}
    (failed : op.apply lhs rhs = .error error) (limit : Nat) : error ≠ .stackOverflow limit := by
  have texts {instr : String} {make : String → String → Value} (failed : (do
      let left ← textOperand instr lhs
      let right ← textOperand instr rhs
      return make left right) = Except.error error) : error ≠ .stackOverflow limit := by
    cases left : textOperand instr lhs with
    | error wrong =>
      rw [left] at failed
      cases failed
      exact textOperand_error left limit
    | ok text =>
      cases right : textOperand instr rhs with
      | error wrong =>
        rw [left, right] at failed
        cases failed
        exact textOperand_error right limit
      | ok text =>
        rw [left, right] at failed
        cases failed
  rw [apply.eq_def] at failed
  split at failed
  case h_14 | h_15 | h_16 => exact texts failed
  case h_19 =>
    cases failed
    nofun
  all_goals cases failed

theorem Range.generate_error {first limit step : Float} {maxLength : Nat} {error : RuntimeError}
    (failed : generate first limit step maxLength = .error error) (bound : Nat) :
    error ≠ .stackOverflow bound := by
  simp only [generate] at failed
  split at failed
  · cases failed
    nofun
  · split at failed
    · cases failed
      nofun
    · cases failed

/-! ### Calls -/

/-- A call at a place where it has so many operands. -/
structure Frame.At (program : Program) (frame : Frame) (count : Nat) : Prop where
  known : frame.routine ∈ program.entry :: program.routines.toList
  height : (frame.routine.heights program)[frame.pc]? = some (some count)

theorem Frame.At.count_le {program : Program} (measured : program.Measured) {frame : Frame}
    {count : Nat} (place : frame.At program count) : count ≤ program.stackBound := by
  obtain ⟨result, verified⟩ := measured _ place.known
  exact Nat.le_trans (verified.height_le_peak place.height) (Program.peak_le_stackBound place.known)

theorem Frame.At.enter {program : Program} (measured : program.Measured) {routine : Routine}
    (known : routine ∈ program.entry :: program.routines.toList) (args : Array Value) (base : Nat) :
    (Frame.enter routine args base).At program 0 := by
  obtain ⟨result, verified⟩ := measured _ known
  exact ⟨known, verified.heights_start⟩

/-- Calls that wait, up to a height of the stack. Each of them will have one operand more when it goes
on. -/
inductive Waits (program : Program) : List Frame → Nat → Prop
  | nil : Waits program [] 0
  | cons {frame : Frame} {callers : List Frame} {count : Nat} (place : frame.At program (count + 1))
      (rest : Waits program callers frame.base) : Waits program (frame :: callers) (frame.base + count)

theorem Waits.height_le {program : Program} (measured : program.Measured) {callers : List Frame}
    {top : Nat} (waits : Waits program callers top) : top ≤ program.stackBound * callers.length := by
  induction waits with
  | nil => exact Nat.zero_le _
  | cons place rest ih =>
    have least := place.count_le measured
    rw [List.length_cons, Nat.mul_succ]
    omega

/-! ### States -/

structure State.Holds (program : Program) (limits : Limits) (state : State) (count : Nat) : Prop where
  stack : state.machine.stack.size = state.frame.base + count
  callers : Waits program state.callers state.frame.base
  counted : state.callers.length < state.machine.depth
  depth : state.machine.depth ≤ limits.maxCallDepth

/-- A run in which each call has as many operands as its place in the code says. With room for all of
them the stack does not overflow. -/
def Progress.Fits (program : Program) (limits : Limits) : Progress → Prop
  | .running state => ∃ count, state.frame.At program count ∧ state.Holds program limits count
  | .returned .. => True
  | .stopped why _ _ => program.stackBound * limits.maxCallDepth ≤ limits.maxStack →
      ∀ limit, why ≠ .error (.stackOverflow limit)

namespace State

variable {program : Program} {limits : Limits} {state : State} {count : Nat}

theorem stop_fits {why : Halt RuntimeError} (other : ∀ limit, why ≠ .error (.stackOverflow limit)) :
    (state.stop why).Fits program limits :=
  fun _ => other

theorem push_fits (measured : program.Measured) (holds : state.Holds program limits count)
    (place : state.frame.At program (count + 1)) (value : Value) :
    (state.push limits value).Fits program limits := by
  obtain ⟨frame, callers, machine, sink⟩ := state
  rw [push]
  split
  case isTrue full =>
    intro room
    -- All calls that wait and the current one have their share of the stack, and one is left over.
    have below := holds.callers.height_le measured
    have own := place.count_le measured
    have stack := holds.stack
    have share := Nat.mul_le_mul_left program.stackBound
      (Nat.le_trans (Nat.succ_le_of_lt holds.counted) holds.depth)
    rw [Nat.mul_succ] at share
    dsimp only at *
    omega
  case isFalse =>
    refine ⟨count + 1, place, ?_, holds.callers, holds.counted, holds.depth⟩
    have stack := holds.stack
    dsimp only at stack ⊢
    rw [Array.size_push, stack, Nat.add_assoc]

theorem pop_fits (holds : state.Holds program limits count) {next : Value → State → Progress}
    (rest : ∀ value state', state'.frame = state.frame → 0 < count →
      state'.Holds program limits (count - 1) → (next value state').Fits program limits) :
    (state.pop next).Fits program limits := by
  obtain ⟨frame, callers, machine, sink⟩ := state
  have stack := holds.stack
  rw [pop]
  split
  case isTrue => exact stop_fits (by rintro _ ⟨⟩)
  case isFalse some =>
    split
    · dsimp only at stack
      refine rest _ _ rfl (by omega) ⟨?_, holds.callers, holds.counted, holds.depth⟩
      dsimp only
      rw [Array.size_pop]
      omega
    · exact stop_fits (by rintro _ ⟨⟩)

theorem popMany_fits (holds : state.Holds program limits count) {taken : Nat}
    {next : Array Value → State → Progress}
    (rest : ∀ values state', state'.frame = state.frame → taken ≤ count →
      state'.Holds program limits (count - taken) → (next values state').Fits program limits) :
    (state.popMany taken next).Fits program limits := by
  obtain ⟨frame, callers, machine, sink⟩ := state
  have stack := holds.stack
  rw [popMany]
  split
  case isTrue => exact stop_fits (by rintro _ ⟨⟩)
  case isFalse enough =>
    dsimp only at stack
    refine rest _ _ rfl (by omega) ⟨?_, holds.callers, holds.counted, holds.depth⟩
    dsimp only
    rw [Array.size_shrink]
    omega

theorem popNumber_fits (holds : state.Holds program limits count) {instr : String}
    {next : Float → State → Progress}
    (rest : ∀ number state', state'.frame = state.frame → 0 < count →
      state'.Holds program limits (count - 1) → (next number state').Fits program limits) :
    (state.popNumber instr next).Fits program limits := by
  refine pop_fits holds fun value state' same some holds => ?_
  split
  · exact rest _ _ same some holds
  · exact stop_fits (by rintro _ ⟨⟩)

theorem jump_fits (known : state.frame.routine ∈ program.entry :: program.routines.toList)
    (holds : state.Holds program limits count) {label : Label}
    (leads : ∀ target, state.frame.routine.labels[label]? = some target →
      (state.frame.routine.heights program)[target]? = some (some count)) :
    (state.jump label).Fits program limits := by
  rw [jump]
  split
  · rename_i target found
    exact ⟨count, ⟨known, leads _ found⟩, holds.stack, holds.callers, holds.counted, holds.depth⟩
  · exact stop_fits (by rintro _ ⟨⟩)

/-! ### Instructions -/

/-- An instruction is about to be carried out, and the next place is the one after it. -/
structure Runs (program : Program) (limits : Limits) (state : State) (instr : Instr)
    (pc count : Nat) : Prop where
  known : state.frame.routine ∈ program.entry :: program.routines.toList
  moved : state.frame.pc = pc + 1
  holds : state.Holds program limits count
  exits : ∀ next ∈ instr.exits program state.frame.routine pc count,
    (state.frame.routine.heights program)[next.1]? = some (some next.2)

variable {instr : Instr} {pc : Nat}

theorem Runs.next (runs : state.Runs program limits instr pc count) {after : Nat}
    (falls : (pc + 1, after) ∈ instr.exits program state.frame.routine pc count) :
    state.frame.At program after := by
  refine ⟨runs.known, ?_⟩
  rw [runs.moved]
  exact runs.exits _ falls

theorem call_fits (measured : program.Measured) {routine : Routine}
    (known : routine ∈ program.entry :: program.routines.toList)
    (holds : state.Holds program limits count)
    (place : state.frame.At program (count - routine.params + 1)) :
    (state.call limits routine).Fits program limits := by
  refine popMany_fits holds fun args state' same enough holds => ?_
  obtain ⟨frame, callers, ⟨stack, depth, openIterators, made⟩, sink⟩ := state'
  dsimp only at same ⊢
  subst same
  split
  · exact stop_fits (by rintro _ ⟨⟩)
  · rename_i shallow
    have waits : Waits program (state.frame :: callers) stack.size := by
      rw [show stack.size = state.frame.base + (count - routine.params) from holds.stack]
      exact .cons place holds.callers
    have counted : callers.length < depth := holds.counted
    refine ⟨0, .enter measured known args stack.size, rfl, waits, ?_, ?_⟩
    · exact Nat.succ_lt_succ counted
    · exact Nat.lt_of_not_le shallow

theorem ret_fits (measured : program.Measured) (holds : state.Holds program limits count) :
    (state.ret limits).Fits program limits := by
  obtain ⟨frame, callers, ⟨stack, depth, openIterators, made⟩, sink⟩ := state
  obtain ⟨isStack, waits, counted, within⟩ := holds
  dsimp only at *
  cases callers with
  | nil => trivial
  | cons caller callers =>
    have shorter : (stack.shrink frame.base).size = frame.base := by
      rw [Array.size_shrink]
      omega
    simp only [ret]
    split
    · generalize frame.base = base at waits shorter
      cases waits with
      | cons place rest =>
        refine push_fits measured ⟨shorter, rest, ?_, ?_⟩ place _
        · rw [List.length_cons] at counted
          dsimp only [Machine.leave]
          omega
        · dsimp only [Machine.leave]
          omega
    · exact stop_fits (by rintro _ ⟨⟩)

theorem exec_fits (measured : program.Measured) (runs : state.Runs program limits instr pc count) :
    (state.exec program limits instr).Fits program limits := by
  have holds := runs.holds
  cases instr with
  | pushNumber | pushText | pushBool =>
    exact push_fits measured holds (runs.next (List.mem_singleton.mpr rfl)) _
  | loadParam index =>
    rw [exec]
    split
    · exact push_fits measured holds (runs.next (List.mem_singleton.mpr rfl)) _
    · exact stop_fits (by rintro _ ⟨⟩)
  | loadLocal slot =>
    rw [exec, loadLocal]
    split
    · exact push_fits measured holds (runs.next (List.mem_singleton.mpr rfl)) _
    · exact stop_fits (by rintro _ ⟨⟩)
    · exact stop_fits (by rintro _ ⟨⟩)
  | storeLocal slot =>
    rw [exec, storeLocal]
    have place := runs.next (List.mem_singleton.mpr rfl)
    refine pop_fits holds fun value state' same some holds => ?_
    obtain ⟨frame, callers, machine, sink⟩ := state'
    dsimp only at same ⊢
    subst same
    split
    · exact ⟨count - 1, ⟨place.known, place.height⟩, holds.stack, holds.callers, holds.counted,
        holds.depth⟩
    · exact stop_fits (by rintro _ ⟨⟩)
  | loadField record index =>
    rw [exec, loadField]
    have place := runs.next (List.mem_singleton.mpr rfl)
    refine pop_fits holds fun value state' same some holds => ?_
    split
    · split
      · exact push_fits measured holds (same ▸ place) _
      · exact stop_fits (by rintro _ ⟨⟩)
    · exact stop_fits (by rintro _ ⟨⟩)
  | construct record =>
    rw [exec, Program.record]
    split
    · rename_i layout present
      split at present
      · rename_i found
        cases present
        have place := runs.next (List.mem_singleton.mpr rfl)
        rw [Instr.pops_construct found] at place
        refine popMany_fits holds fun args state' same enough holds => ?_
        dsimp only
        split
        · exact stop_fits (by rintro _ ⟨⟩)
        · refine push_fits measured ?_ (same ▸ place) _
          exact ⟨holds.stack, holds.callers, holds.counted, holds.depth⟩
      · cases present
    · exact stop_fits (by rintro _ ⟨⟩)
  | call routine =>
    rw [exec, Program.routine]
    split
    · rename_i callee present
      split at present
      · rename_i found
        cases present
        have place := runs.next (List.mem_singleton.mpr rfl)
        rw [Instr.pops_call found] at place
        refine call_fits measured ?_ holds place
        exact List.mem_cons_of_mem _ (Array.mem_toList_iff.mpr (Array.mem_of_getElem? found))
      · cases present
    · exact stop_fits (by rintro _ ⟨⟩)
  | branch target =>
    refine jump_fits runs.known holds fun pc found => ?_
    exact runs.exits (pc, count) (by simp [Instr.exits, Instr.pops, found])
  | branchIfFalse target =>
    rw [exec, branchIfFalse]
    have place := runs.next List.mem_cons_self
    refine pop_fits holds fun value state' same some holds => ?_
    split
    · exact ⟨count - 1, same ▸ place, holds⟩
    · refine jump_fits (same ▸ runs.known) holds fun pc found => ?_
      rw [same] at found ⊢
      exact runs.exits (pc, count - 1) (by simp [Instr.exits, Instr.pops, found])
    · exact stop_fits (by rintro _ ⟨⟩)
  | mark label => exact ⟨count, runs.next (List.mem_singleton.mpr rfl), holds⟩
  | binary op =>
    rw [exec, binary]
    have place := runs.next (List.mem_singleton.mpr rfl)
    refine pop_fits holds fun rhs state₁ same some holds => ?_
    refine pop_fits holds fun lhs state₂ same' some' holds => ?_
    split
    · exact push_fits measured holds (same'.trans same ▸ place) _
    · rename_i error failed
      exact stop_fits fun limit isError =>
        BinaryInstr.apply_error failed limit (Halt.error.inj isError)
  | box =>
    rw [exec]
    have place := runs.next (List.mem_singleton.mpr rfl)
    refine pop_fits holds fun value state' same some holds => ?_
    exact push_fits measured holds (same ▸ place) _
  | pop =>
    rw [exec]
    have place := runs.next (List.mem_singleton.mpr rfl)
    exact pop_fits holds fun value state' same some holds => ⟨count - 1, same ▸ place, holds⟩
  | generateList =>
    rw [exec, generateList]
    have place := runs.next (List.mem_singleton.mpr rfl)
    refine popNumber_fits holds fun step state₁ same₁ some₁ holds => ?_
    refine popNumber_fits holds fun limit state₂ same₂ some₂ holds => ?_
    refine popNumber_fits holds fun first state₃ same₃ some₃ holds => ?_
    split
    · exact push_fits measured holds (same₃.trans (same₂.trans same₁) ▸ place) _
    · rename_i error failed
      exact stop_fits fun limit isError =>
        Range.generate_error failed limit (Halt.error.inj isError)
  | writeLine =>
    rw [exec, writeLine]
    have place := runs.next (List.mem_singleton.mpr rfl)
    refine pop_fits holds fun value state' same some holds => ?_
    obtain ⟨frame, callers, machine, sink⟩ := state'
    dsimp only at same ⊢
    subst same
    split
    · exact ⟨count - 1, place, holds.stack, holds.callers, holds.counted, holds.depth⟩
    · exact stop_fits (by rintro _ ⟨⟩)
  | acquire slot =>
    rw [exec, acquire]
    have place := runs.next (List.mem_singleton.mpr rfl)
    refine pop_fits holds fun value state' same some holds => ?_
    obtain ⟨frame, callers, machine, sink⟩ := state'
    dsimp only at same ⊢
    subst same
    split
    · split
      · exact stop_fits (by rintro _ ⟨⟩)
      · exact ⟨count - 1, ⟨place.known, place.height⟩, holds.stack, holds.callers, holds.counted,
          holds.depth⟩
    · exact stop_fits (by rintro _ ⟨⟩)
  | advance slot exit =>
    obtain ⟨frame, callers, machine, sink⟩ := state
    have place := runs.next List.mem_cons_self
    simp only [exec, advance]
    split
    · rename_i item rest found
      have moved : Holds program limits
          ⟨{ frame with iterators := frame.iterators.setIfInBounds slot (some rest) }, callers, machine,
            sink⟩ count :=
        ⟨holds.stack, holds.callers, holds.counted, holds.depth⟩
      exact push_fits measured moved ⟨place.known, place.height⟩ item
    · refine jump_fits runs.known holds fun pc found => ?_
      exact runs.exits (pc, count) (by simp [Instr.exits, Instr.pops, found])
    · exact stop_fits (by rintro _ ⟨⟩)
  | release slot =>
    obtain ⟨frame, callers, machine, sink⟩ := state
    have place := runs.next (List.mem_singleton.mpr rfl)
    simp only [exec, release]
    split
    · exact ⟨count, ⟨place.known, place.height⟩, holds.stack, holds.callers, holds.counted,
        holds.depth⟩
    · exact ⟨count, place, holds⟩
  | ret => exact ret_fits measured holds

theorem step_fits (measured : program.Measured) (place : state.frame.At program count)
    (holds : state.Holds program limits count) :
    (state.step program limits).Fits program limits := by
  obtain ⟨frame, callers, machine, sink⟩ := state
  obtain ⟨result, verified⟩ := measured _ place.known
  simp only [step]
  split
  · rename_i instr found
    have moved : Holds program limits ⟨{ frame with pc := frame.pc + 1 }, callers, machine, sink⟩
        count :=
      ⟨holds.stack, holds.callers, holds.counted, holds.depth⟩
    refine exec_fits measured ⟨place.known, rfl, moved, fun next exit => ?_⟩
    exact verified.heights_exit place.height found exit
  · exact stop_fits (by rintro _ ⟨⟩)

theorem run_fits (measured : program.Measured) (place : state.frame.At program count)
    (holds : state.Holds program limits count) (fuel : Nat) :
    (state.run program limits fuel).Fits program limits := by
  induction fuel generalizing state count with
  | zero => exact ⟨count, place, holds⟩
  | succ fuel ih =>
    have stepped := step_fits measured place holds
    rw [run]
    cases made : state.step program limits with
    | running state' =>
      rw [made] at stepped
      obtain ⟨count', place', holds'⟩ := stepped
      exact ih place' holds'
    | returned | stopped =>
      rw [made] at stepped
      exact stepped

end State

theorem Machine.execute_fits {program : Program} (measured : program.Measured) (machine : Machine)
    (limits : Limits) (fuel : Nat) (sink : Sink) :
    (machine.execute program limits fuel sink).Fits program limits := by
  simp only [execute, runRoutine, start]
  by_cases deep : limits.maxCallDepth ≤ machine.depth
  · rw [if_pos deep]
    exact fun _ => nofun
  · rw [if_neg deep]
    refine State.run_fits measured (.enter measured List.mem_cons_self _ 0) ?_ fuel
    exact ⟨rfl, .nil, Nat.succ_pos _, Nat.lt_of_not_le deep⟩

/-- How many operands each call has on the stack, the current one first. -/
def Frame.shares : Nat → List Frame → List Nat
  | _, [] => []
  | top, frame :: callers => (top - frame.base) :: shares frame.base callers

theorem Waits.shares_le {program : Program} (measured : program.Measured) {callers : List Frame}
    {top : Nat} (waits : Waits program callers top) :
    ∀ share ∈ Frame.shares top callers, share ≤ program.stackBound := by
  induction waits with
  | nil => nofun
  | cons place rest ih =>
    have least := place.count_le measured
    intro share member
    rcases List.mem_cons.mp member with rfl | others
    · omega
    · exact ih share others

end LetChain
