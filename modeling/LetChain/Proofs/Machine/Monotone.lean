import LetChain.Proofs.Machine.Isolated
import LetChain.Proofs.Number.Rounding

/-! Larger limits prevent failures and change nothing else. Two runs of one program under different
limits are in lockstep until the one with the smaller limits meets one of them. -/

namespace LetChain

/-- No limit is smaller. -/
structure Limits.Within (limits limits' : Limits) : Prop where
  callDepth : limits.maxCallDepth ≤ limits'.maxCallDepth
  rangeLength : limits.maxRangeLength ≤ limits'.maxRangeLength
  stack : limits.maxStack ≤ limits'.maxStack

/-- The errors that larger limits can prevent. -/
def RuntimeError.isLimit : RuntimeError → Bool
  | .callDepthExceeded _ | .stackOverflow _ | .rangeTooLarge _ => true
  | _ => false

/-! ### Output -/

namespace Sink

/-- More has been written. -/
def Extends (sink sink' : Sink) : Prop := ∃ text, sink'.written = sink.written ++ text

theorem Extends.refl (sink : Sink) : sink.Extends sink := ⟨"", String.append_empty.symm⟩

theorem Extends.trans {sink sink' sink'' : Sink} (first : sink.Extends sink')
    (second : sink'.Extends sink'') : sink.Extends sink'' := by
  obtain ⟨text, eq⟩ := first
  obtain ⟨text', eq'⟩ := second
  exact ⟨text ++ text', by rw [eq', eq, String.append_assoc]⟩

theorem write_extends (sink : Sink) (text : String) : sink.Extends (sink.write text).1 := by
  obtain ⟨written, room⟩ := sink
  cases room with
  | none => exact ⟨text, rfl⟩
  | some room =>
    simp only [write]
    split
    · exact ⟨text, rfl⟩
    · exact ⟨_, rfl⟩

end Sink

namespace State

variable {program : Program} {limits : Limits} {state : State}

/-! Only one instruction writes. -/

theorem push_sink (value : Value) : (state.push limits value).sink = state.sink := by
  rw [push]
  split <;> rfl

theorem pop_sink {next : Value → State → Progress}
    (rest : ∀ value state', (next value state').sink = state'.sink) :
    (state.pop next).sink = state.sink := by
  rw [pop]
  split
  · rfl
  · split
    · exact rest _ _
    · rfl

theorem popMany_sink {count : Nat} {next : Array Value → State → Progress}
    (rest : ∀ values state', (next values state').sink = state'.sink) :
    (state.popMany count next).sink = state.sink := by
  rw [popMany]
  split
  · rfl
  · exact rest _ _

theorem popNumber_sink {instr : String} {next : Float → State → Progress}
    (rest : ∀ number state', (next number state').sink = state'.sink) :
    (state.popNumber instr next).sink = state.sink := by
  refine pop_sink fun value state' => ?_
  split
  · exact rest _ _
  · rfl

theorem jump_sink (label : Label) : (state.jump label).sink = state.sink := by
  rw [jump]
  split <;> rfl

theorem construct_sink (layout : RecordLayout) :
    (state.construct limits layout).sink = state.sink := by
  refine popMany_sink fun values state' => ?_
  dsimp only
  split
  · rfl
  · exact push_sink _

theorem call_sink (routine : Routine) : (state.call limits routine).sink = state.sink := by
  refine popMany_sink fun args state' => ?_
  dsimp only
  split <;> rfl

theorem ret_sink : (state.ret limits).sink = state.sink := by
  obtain ⟨frame, callers, machine, sink⟩ := state
  cases callers with
  | nil => rfl
  | cons caller callers =>
    simp only [ret]
    split
    · exact push_sink _
    · rfl

theorem exec_sink {instr : Instr} (silent : instr ≠ .writeLine) :
    (state.exec program limits instr).sink = state.sink := by
  cases instr with
  | pushNumber | pushText | pushBool => exact push_sink _
  | loadParam index =>
    simp only [exec]
    split
    · exact push_sink _
    · rfl
  | loadLocal slot =>
    simp only [exec, loadLocal]
    split
    · exact push_sink _
    · rfl
    · rfl
  | storeLocal slot =>
    rw [exec, storeLocal]
    refine pop_sink fun value state' => ?_
    dsimp only
    split <;> rfl
  | loadField record index =>
    rw [exec, loadField]
    refine pop_sink fun value state' => ?_
    split
    · split
      · exact push_sink _
      · rfl
    · rfl
  | construct record =>
    simp only [exec]
    split
    · exact construct_sink _
    · rfl
  | call routine =>
    simp only [exec]
    split
    · exact call_sink _
    · rfl
  | branch target => exact jump_sink target
  | branchIfFalse target =>
    rw [exec, branchIfFalse]
    refine pop_sink fun value state' => ?_
    split
    · rfl
    · exact jump_sink target
    · rfl
  | mark label => rfl
  | binary op =>
    rw [exec, binary]
    refine pop_sink fun rhs state' => ?_
    refine pop_sink fun lhs state' => ?_
    split
    · exact push_sink _
    · rfl
  | box => exact pop_sink fun value state' => push_sink _
  | pop => exact pop_sink fun value state' => rfl
  | generateList =>
    rw [exec, generateList]
    refine popNumber_sink fun step state' => ?_
    refine popNumber_sink fun limit state' => ?_
    refine popNumber_sink fun first state' => ?_
    split
    · exact push_sink _
    · rfl
  | writeLine => exact absurd rfl silent
  | acquire slot =>
    rw [exec, acquire]
    refine pop_sink fun value state' => ?_
    split
    · dsimp only
      split <;> rfl
    · rfl
  | advance slot exit =>
    simp only [exec, advance]
    split
    · exact push_sink _
    · exact jump_sink exit
    · rfl
  | release slot =>
    simp only [exec, release]
    split <;> rfl
  | ret => exact ret_sink

def Writes (sink : Sink) (progress : Progress) : Prop :=
  progress.sink = sink ∨ ∃ text, progress.sink = (sink.write text).1 ∧
    ∀ error machine sink', progress = .stopped (.error error) machine sink' → error = .output

theorem writeLine_writes : Writes state.sink state.writeLine := by
  simp only [writeLine, pop]
  split
  · exact .inl rfl
  · split
    · rename_i value found
      split
      · rename_i sink written
        exact .inr ⟨value.render ++ "\n", by rw [written]; rfl, by rintro _ _ _ ⟨⟩⟩
      · rename_i sink written
        refine .inr ⟨value.render ++ "\n", by rw [written]; rfl, ?_⟩
        rintro error machine sink' stopped
        cases stopped
        rfl
    · exact .inl rfl

theorem step_writes : Writes state.sink (state.step program limits) := by
  simp only [step]
  split
  · rename_i instr found
    by_cases isWrite : instr = .writeLine
    · subst isWrite
      exact writeLine_writes
    · exact .inl (exec_sink isWrite)
  · exact .inl rfl

theorem Writes.extends {sink : Sink} {progress : Progress} (writes : Writes sink progress) :
    sink.Extends progress.sink := by
  rcases writes with same | ⟨text, same, _⟩
  · exact same ▸ .refl sink
  · exact same ▸ sink.write_extends text

theorem run_extends_start (fuel : Nat) :
    state.sink.Extends (state.run program limits fuel).sink := by
  induction fuel generalizing state with
  | zero => exact .refl _
  | succ fuel ih =>
    have written : state.sink.Extends (state.step program limits).sink := step_writes.extends
    rw [run]
    cases stepped : state.step program limits with
    | running state' =>
      rw [stepped] at written
      exact written.trans ih
    | returned | stopped =>
      rw [stepped] at written
      exact written

theorem run_extends (fuel more : Nat) :
    (state.run program limits fuel).sink.Extends (state.run program limits (fuel + more)).sink := by
  induction fuel generalizing state with
  | zero =>
    rw [Nat.zero_add]
    exact run_extends_start more
  | succ fuel ih =>
    rw [Nat.succ_add, run, run]
    cases state.step program limits with
    | running state' => exact ih
    | returned | stopped => exact .refl _

end State

/-! ### Two runs -/

theorem Range.generate_raised {maxLength maxLength' : Nat} (le : maxLength ≤ maxLength')
    (first limit step : Float) :
    generate first limit step maxLength = generate first limit step maxLength' ∨
      generate first limit step maxLength = .error (.rangeTooLarge maxLength) := by
  simp only [generate]
  split
  · exact .inl rfl
  · by_cases short : (!((limit - first).abs / step).isFinite ||
        decide (Float.ofNat maxLength < (limit - first).abs / step)) = true
    · exact .inr (if_pos short)
    · refine .inl ?_
      rw [if_neg short, if_neg]
      intro short'
      apply short
      rw [Bool.or_eq_true, decide_eq_true_eq] at short' ⊢
      exact short'.imp_right (Number.ofNat_lt le)

namespace Link

def raised (program : Program) (limits limits' : Limits) : Link where
  program := program
  program' := program
  limits := limits
  limits' := limits'
  under := []
  under' := []
  same := Eq
  calls := Eq
  records := Eq
  excused error := error.isLimit
  excused' _ := False

theorem raised_sound (program : Program) {limits limits' : Limits} (within : limits.Within limits') :
    (raised program limits limits').Sound where
  faithful := by
    rintro _ _ _ _ rfl rfl
    exact Iff.rfl
  routine known := (Program.Twin.refl program).routine known
  record known := (Program.Twin.refl program).record known
  stack height := by
    have stack := within.stack
    by_cases full : limits.maxStack ≤ ([] : List Value).length + height
    · exact .left full rfl
    · exact .neither full fun full' => full (Nat.le_trans stack full')
  depth depth := by
    by_cases full : limits.maxCallDepth ≤ depth
    · exact .left full rfl
    · exact .neither full fun full' => full (Nat.le_trans within.callDepth full')
  range first limit step := by
    rcases Range.generate_raised within.rangeLength first limit step with same | failed
    · exact .inl same
    · exact .inr (.inl ⟨_, failed, rfl⟩)

end Link

/-- How a run compares with one under larger limits after as many instructions: they are the same,
unless the first has met a limit. What it wrote until then the second has written too. -/
inductive Progress.Outlasted : Progress → Progress → Prop
  | running {state state' : State} (same : state.sink = state'.sink) :
      Outlasted (.running state) (.running state')
  | returned (value : Option Value) {machine machine' : Machine} {sink : Sink} :
      Outlasted (.returned value machine sink) (.returned value machine' sink)
  | stopped (why : Halt RuntimeError) {machine machine' : Machine} {sink : Sink} :
      Outlasted (.stopped why machine sink) (.stopped why machine' sink)
  | limited {error : RuntimeError} {machine : Machine} {sink : Sink} {progress : Progress}
      (isLimit : error.isLimit) (kept : sink.Extends progress.sink) :
      Outlasted (.stopped (.error error) machine sink) progress

theorem State.Writes.sink_eq {sink sink' : Sink} {error : RuntimeError} {machine : Machine}
    (writes : Writes sink (.stopped (.error error) machine sink')) (isLimit : error.isLimit) :
    sink' = sink := by
  rcases writes with same | ⟨text, _, output⟩
  · exact same
  · cases output error machine sink' rfl
    cases isLimit

section

variable {program : Program} {limits limits' : Limits}

theorem State.run_outlasted (within : limits.Within limits') {state state' : State}
    (states : (Link.raised program limits limits').States state state') (fuel : Nat) :
    (state.run program limits fuel).Outlasted (state'.run program limits' fuel) := by
  have sound := Link.raised_sound program within
  induction fuel generalizing state state' with
  | zero => exact .running states.sink
  | succ fuel ih =>
    have stepped := Link.step_lockstep sound states
    have writes : Writes state.sink (state.step program limits) := step_writes
    have more : state'.sink.Extends (state'.run program limits' (fuel + 1)).sink :=
      run_extends_start _
    rw [run] at more ⊢
    rw [run]
    dsimp only [Link.raised] at stepped
    generalize state.step program limits = progress, state'.step program limits' = progress'
      at stepped writes more
    cases stepped with
    | running states => exact ih states
    | returned alike machines =>
      cases alike with
      | none => exact .returned none
      | some alike =>
        cases alike.eq
        exact .returned _
    | stopped why => exact .stopped why
    | left excused =>
      rw [writes.sink_eq excused, states.sink]
      exact .limited excused more
    | right excused => exact excused.elim

/-- A run and one under larger limits, at every point. -/
structure Outlasts (run run' : Nat → Progress) : Prop where
  outlasted : ∀ fuel, (run fuel).Outlasted (run' fuel)
  kept : ∀ fuel more, (run' fuel).sink.Extends (run' (fuel + more)).sink

namespace Machine

theorem runRoutine_outlasts (within : limits.Within limits') (machine : Machine) (routine : Routine)
    (args : List Value) (sink : Sink) :
    Outlasts (machine.runRoutine program limits · routine args sink)
      (machine.runRoutine program limits' · routine args sink) := by
  obtain ⟨stack, depth, openIterators, made⟩ := machine
  have operands : (Link.raised program limits limits').Stacks #[] #[] := ⟨[], [], rfl, rfl, .nil⟩
  have alike : List.Forall₂ (Value.Alike Eq) args.toArray.toList args.toArray.toList :=
    List.forall₂_same.mpr fun value _ => .refl value
  have frames := Link.Frames.enter (.refl routine) alike operands
  have callDepth := within.callDepth
  constructor
  · intro fuel
    simp only [runRoutine, start]
    by_cases deep : limits.maxCallDepth ≤ depth
    · rw [if_pos deep]
      refine .limited rfl ?_
      by_cases deep' : limits'.maxCallDepth ≤ depth
      · rw [if_pos deep']
        exact .refl sink
      · rw [if_neg deep']
        exact State.run_extends_start fuel
    · rw [if_neg deep, if_neg (by omega)]
      exact State.run_outlasted within ⟨frames, .nil, ⟨operands, rfl, rfl, fun _ => rfl⟩, rfl⟩ fuel
  · intro fuel more
    simp only [runRoutine]
    cases start _ _ _ _ _ with
    | running state => exact State.run_extends fuel more
    | returned | stopped => exact .refl _

/-- Outcomes are monotone in the limits. A run that returns or fails under some limits, other than by
meeting one of them, does the same under larger limits, and writes the same. What it wrote when it met
a limit it writes under larger limits as well, within as many instructions. -/
theorem outcomes_monotone (program : Program) (within : limits.Within limits') (machine : Machine) :
    (∀ sink, Outlasts (machine.execute program limits · sink)
      (machine.execute program limits' · sink)) ∧
    ∀ index args, Outlasts (machine.call program limits · index args)
      (machine.call program limits' · index args) := by
  refine ⟨fun sink => runRoutine_outlasts within machine _ _ sink, fun index args => ?_⟩
  simp only [call]
  cases program.routine index with
  | ok routine => exact runRoutine_outlasts within machine routine args .unlimited
  | error fault => exact ⟨fun _ => .stopped _, fun _ _ => .refl _⟩

def writeThenPush : Program where
  routines := #[]
  records := #[]
  entry := ⟨"<entry>", 0, 0, 0, #[.pushText "a", .writeLine, .pushBool true, .pushBool true, .ret], #[]⟩

theorem outcomes_monotone_writeThenPush :
    Limits.Within ⟨1, 0, 1⟩ ⟨1, 0, 2⟩ ∧
      (∀ sink, Outlasts (fresh.execute writeThenPush ⟨1, 0, 1⟩ · sink)
        (fresh.execute writeThenPush ⟨1, 0, 2⟩ · sink)) ∧
      fresh.execute writeThenPush ⟨1, 0, 1⟩ 5 .unlimited =
        .stopped (.error (.stackOverflow 1)) ⟨#[.bool true], 0, 0, 0⟩ ⟨"a\n", none⟩ := by
  have within : Limits.Within ⟨1, 0, 1⟩ ⟨1, 0, 2⟩ := ⟨by decide, by decide, by decide⟩
  exact ⟨within, (outcomes_monotone writeThenPush within fresh).1, by cbv⟩

end Machine

end

end LetChain
