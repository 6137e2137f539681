import LetChain.Proofs.Machine.Nested

/-! How whole runs end. A run of a linked program ends as the evaluation of its functions does, unless
the operand stack overflows. -/

namespace LetChain

open Meaning

namespace Progress

/-- A finished run answers an evaluation unless the stack overflowed: it is good for the value, or
stopped with the same error. Where the evaluation failed nothing was written. -/
def Answers {α : Type} (limits : Limits) (sink : Sink) (result : Except Failure α)
    (good : α → Progress → Prop) (progress : Progress) : Prop :=
  (∃ machine, progress = .stopped (.error (.stackOverflow limits.maxStack)) machine sink) ∨
    match result with
    | .ok a => good a progress
    | .error (.error error) => ∃ machine, progress = .stopped (.error error) machine sink
    | .error .stuck => ∃ error machine, progress = .stopped (.error error) machine sink

/-- A run that wrote a text and returned, or stopped because the text did not fit. -/
def Prints (sink : Sink) (text : String) (progress : Progress) : Prop :=
  ∃ machine, progress =
    match sink.write text with
    | (sink', true) => .returned none machine sink'
    | (sink', false) => .stopped (.error .output) machine sink'

def Returns (value : Value) (progress : Progress) : Prop :=
  ∃ machine, progress = .returned (some value) machine .unlimited

theorem Returns.final {value : Value} {progress : Progress} (returns : Returns value progress) :
    progress.Final := by
  obtain ⟨machine, rfl⟩ := returns
  trivial

theorem Prints.final {sink : Sink} {text : String} {progress : Progress}
    (prints : Prints sink text progress) : progress.Final := by
  obtain ⟨machine, rfl⟩ := prints
  split <;> trivial

theorem Answers.final {α : Type} {limits : Limits} {sink : Sink} {result : Except Failure α}
    {good : α → Progress → Prop} {progress : Progress}
    (answers : progress.Answers limits sink result good)
    (ends : ∀ a, good a progress → progress.Final) : progress.Final := by
  rcases answers with ⟨machine, rfl⟩ | answers
  · trivial
  · match result with
    | .ok a => exact ends a answers
    | .error (.error error) =>
      obtain ⟨machine, rfl⟩ := answers
      trivial
    | .error .stuck =>
      obtain ⟨error, machine, rfl⟩ := answers
      trivial

theorem Answers.typed {α : Type} {limits : Limits} {sink : Sink} {result : Except Failure α}
    {good : α → Progress → Prop} {good' : α → Prop} {progress : Progress}
    (answers : progress.Answers limits sink result good) (ends : Ends result good') :
    (∃ machine, progress = .stopped (.error (.stackOverflow limits.maxStack)) machine sink) ∨
      (∃ a, result = .ok a ∧ good' a ∧ good a progress) ∨
      ∃ error machine, result = .error (.error error) ∧ Failure.Reportable (.error error) ∧
        progress = .stopped (.error error) machine sink := by
  rcases answers with overflow | answers
  · exact .inl overflow
  · match result with
    | .ok a => exact .inr (.inl ⟨a, rfl, ends, answers⟩)
    | .error (.error error) =>
      obtain ⟨machine, stopped⟩ := answers
      exact .inr (.inr ⟨error, machine, rfl, ends, stopped⟩)
    | .error .stuck => exact nomatch ends

end Progress

theorem State.Follows.answers {α : Type} {program : Program} {limits : Limits} {state : State}
    {result : Except Failure α} {good : α → State → Prop} {good' : α → Progress → Prop}
    (follows : state.Follows program limits result good)
    (finish : ∀ a state', good a state' → ∃ fuel, good' a (state'.run program limits fuel)) :
    ∃ fuel, (state.run program limits fuel).Answers limits state.sink result good' := by
  rcases follows with ⟨fuel, overflow⟩ | follows
  · exact ⟨fuel, .inl overflow⟩
  · match result with
    | .ok a =>
      obtain ⟨state', ⟨_, fuel, ran⟩, isGood⟩ := follows
      obtain ⟨fuel', finished⟩ := finish a state' isGood
      refine ⟨fuel + fuel', .inr ?_⟩
      rw [run_add, ran]
      exact finished
    | .error (.error error) =>
      obtain ⟨fuel, stopped⟩ := follows
      exact ⟨fuel, .inr stopped⟩
    | .error .stuck =>
      obtain ⟨error, fuel, stopped⟩ := follows
      exact ⟨fuel, .inr ⟨error, stopped⟩⟩

namespace Machine

variable {program : Program} {limits : Limits} {machine : Machine} {sink : Sink}

theorem runRoutine_settles {routine : Routine} {args : List Value} :
    Settles fun fuel => machine.runRoutine program limits fuel routine args sink := by
  intro fuel fuel' enough final
  simp only [runRoutine] at final ⊢
  cases started : machine.start limits routine args sink with
  | running state =>
    simp only [started] at final ⊢
    exact State.run_settles fuel fuel' enough final
  | returned value machine sink => rfl
  | stopped why machine sink => rfl

theorem execute_settles : Settles fun fuel => machine.execute program limits fuel sink :=
  runRoutine_settles

theorem call_settles {index : Nat} {args : List Value} :
    Settles fun fuel => machine.call program limits fuel index args := by
  intro fuel fuel' enough final
  simp only [call] at final ⊢
  cases found : program.routine index with
  | ok routine =>
    simp only [found] at final ⊢
    exact runRoutine_settles fuel fuel' enough final
  | error fault => rfl

end Machine

/-! ### Calls and executions -/

theorem Call.ret_returns {program : Program} {limits : Limits} {call : Call} {store : Store}
    {loops : Loops} {stop : Nat} {stack : Array Value} {value : Value}
    (has : call.site.Has stop .ret) (callers : call.callers = []) (room : call.base ≤ stack.size) :
    ∃ machine, (call.state store loops stop (stack.push value)).run program limits 1 =
      .returned (some value) machine call.sink := by
  have above : call.base < (stack.push value).size := by
    rw [Array.size_push]
    omega
  refine ⟨Machine.leave ⟨(stack.push value).shrink call.base, call.depth, loops.opened, store.made⟩
    (call.frame store loops (stop + 1)), ?_⟩
  rw [State.run, step_eq has]
  simp only [State.exec, State.ret, state, frame, callers, if_pos above, Array.back?_push]

theorem Call.writeLine_prints {program : Program} {limits : Limits} {call : Call} {store : Store}
    {loops : Loops} {pc : Nat} {value : Value} (writes : call.site.Has pc .writeLine)
    (ends : call.site.Has (pc + 1) .ret) (callers : call.callers = []) (base : call.base = 0) :
    ((call.state store loops pc (#[].push value)).run program limits 2).Prints call.sink
      (value.render ++ "\n") := by
  have stepped : (call.state store loops pc (#[].push value)).step program limits = _ :=
    step_eq writes
  simp only [State.exec, State.writeLine] at stepped
  rw [pop_push (base ▸ Nat.zero_le _)] at stepped
  unfold Progress.Prints
  rcases wrote : call.sink.write (value.render ++ "\n") with ⟨sink, fits⟩
  simp only [state_sink, wrote] at stepped
  cases fits with
  | true =>
    let after : Call := { call with sink }
    have ends : after.site.Has (pc + 1) .ret := ends
    have returned : ∃ machine, (after.state store loops (pc + 1) #[]).run program limits 1 =
        .returned none machine sink := by
      rw [State.run, step_eq ends]
      simp only [State.exec, State.ret, state, frame, after, callers, base]
      exact ⟨_, rfl⟩
    rw [State.run_succ stepped]
    exact returned
  | false =>
    rw [State.run, stepped]
    exact ⟨_, rfl⟩

structure Enters (program : Program) (resolved : Resolved) (index : Nat) (main : FunctionDef) :
    Prop where
  entry : program.entry = Program.entryOf index
  found : resolved.globals.functions[index]? = some main
  top : topLevel? resolved.module "Main" = some main.sym
  noParams : main.params = 0

namespace Linked

variable {program : Program} {layout : Layout} {symbols : Symbols} {globals : Globals}

theorem call_answers (linked : Linked program layout symbols globals) {index : Nat}
    {function : FunctionDef} (found : globals.functions[index]? = some function) (limits : Limits)
    (machine : Machine) (args : List Value) :
    ∃ fuel, (machine.call program limits fuel index args).Answers limits .unlimited
      (callFunction globals limits (limits.maxCallDepth - machine.depth) function.sym args
        machine.made)
      fun result => Progress.Returns result.1 := by
  obtain ⟨routine, routineAt, implements⟩ := linked.routine index function found
  simp only [Machine.call, Program.routine, routineAt, Machine.runRoutine, Machine.start]
  by_cases full : limits.maxCallDepth ≤ machine.depth
  · simp only [if_pos full, Nat.sub_eq_zero_of_le full, callFunction]
    exact ⟨0, .inr ⟨_, rfl⟩⟩
  · obtain ⟨levels, deep⟩ : ∃ levels, limits.maxCallDepth - machine.depth = levels + 1 :=
      ⟨limits.maxCallDepth - machine.depth - 1, by omega⟩
    simp only [if_neg full, deep, callFunction, linked.find?_eq_some found]
    let call : Call := ⟨⟨layout, symbols, routine, function.body.locals⟩, args, 0, [],
      machine.depth + 1, .unlimited⟩
    have depth : call.depth + levels = limits.maxCallDepth := by
      change machine.depth + 1 + levels = limits.maxCallDepth
      omega
    have body := call.body_follows linked (callsFollow linked limits levels) depth
      (List.mem_of_getElem? found) implements (Nat.zero_le (Array.size #[])) machine.openIterators
      machine.made
    refine (body.map fun result => (result.1, result.2.made)).answers ?_
    rintro _ _ ⟨⟨value, store⟩, rfl, loops, stop, returns, rfl⟩
    exact ⟨1, Call.ret_returns returns rfl (Nat.zero_le _)⟩

theorem execute_answers {resolved : Resolved}
    (linked : Linked program layout symbols resolved.globals) {index : Nat} {main : FunctionDef}
    (enters : Enters program resolved index main) (limits : Limits) (machine : Machine)
    (sink : Sink) :
    ∃ fuel, (machine.execute program limits fuel sink).Answers limits sink
      (evaluate resolved limits machine.depth machine.made) (Progress.Prints sink) := by
  simp only [Machine.execute, Machine.runRoutine, Machine.start, evaluate, enters.top]
  by_cases full : limits.maxCallDepth ≤ machine.depth
  · simp only [if_pos full]
    exact ⟨0, .inr ⟨_, rfl⟩⟩
  · simp only [if_neg full, enters.entry]
    let call : Call := ⟨⟨layout, symbols, Program.entryOf index, []⟩, [], 0, [], machine.depth + 1,
      sink⟩
    have depth : call.depth + (limits.maxCallDepth - machine.depth - 1) = limits.maxCallDepth := by
      change machine.depth + 1 + (limits.maxCallDepth - machine.depth - 1) = limits.maxCallDepth
      omega
    have called := callsFollow linked limits (limits.maxCallDepth - machine.depth - 1) call
      ⟨fun _ => none, machine.made⟩ ⟨#[], machine.openIterators⟩ 0 #[] index main [] enters.found
      enters.noParams.symm rfl (Nat.zero_le _) depth
    refine (called.map fun result => result.1.render ++ "\n").answers ?_
    rintro _ _ ⟨⟨value, made⟩, rfl, opened, rfl⟩
    exact ⟨2, Call.writeLine_prints rfl rfl rfl rfl⟩

end Linked

end LetChain
