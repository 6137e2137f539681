import Mathlib
import LetChain.Proofs.Compiled.Program
import LetChain.Proofs.Lowering.Laid
import LetChain.Proofs.Lowering.Parts

/-! How compiled programs behave: they do what their trees mean, go wrong in no way that types rule
out, and end. -/

namespace LetChain

open Meaning

section Linked

variable {program : Program} {layout : Layout} {symbols : Symbols}

theorem Linked.evaluate_ends {resolved : Resolved}
    (linked : Linked program layout symbols resolved.globals) {index : Nat} {main : FunctionDef}
    (enters : Enters program resolved index main) (limits : Limits) (depth made : Nat) :
    Ends (evaluate resolved limits depth made) fun _ => True := by
  have member : main ∈ resolved.globals.functions := List.mem_of_getElem? enters.found
  obtain ⟨params, returns, isFunction, count, _⟩ := linked.typed main member
  obtain rfl : params = [] := List.length_eq_zero_iff.mp (count.trans enters.noParams)
  rw [evaluate]
  by_cases full : limits.maxCallDepth ≤ depth
  · rw [if_pos full]
    exact .callDepthExceeded
  · rw [if_neg full, enters.top]
    have ends : Ends (callFunction resolved.globals limits (limits.maxCallDepth - depth - 1) main.sym
        [] made) fun result => Inhabits resolved.globals result.1 returns :=
      callFunction_ends linked.typed _ isFunction ⟨main, member, rfl⟩ .nil
    exact ends.bind fun _ _ => trivial

end Linked

/-- A text that compiles, for instances of what follows. -/
def negationText : String :=
  "func Not(a Boolean) -> Boolean { let b Boolean = true where if a then false b }
func Main() -> Boolean { Not(true) }"

theorem compile_negationText : ∃ compilation, compile negationText = .ok compilation ∧
    compilation.program.routines.size = 2 ∧
    compilation.resolved.globals.functions.map FunctionDef.sym = [0, 2] ∧
    (compilation.resolved.globals.symbol 0).kind = .function [1] .boolean 0 ∧
    (compilation.resolved.globals.symbol 1).ty = .boolean ∧
    evaluate compilation.resolved .standard 0 0 = .ok "false\n" ∧
    Declaration.recordCount compilation.resolved.module.declarations = 0 ∧
    compilation.resolved.module.functions.map (fun function =>
      (function.params, [Resource.locals, .iterators, .labels].map
        (Part.costs function.body.parts))) = [(1, [1, 0, 1]), (0, [0, 0, 0])] := by
  have chars : negationText.toList = _ := String.toList_ofList
  apply Stateful.exists_eq_ok
  rw [compile, compileWith, resolveSource, parseModule, parseWith, Token.scan, chars]
  cbv

/-- From some fuel on an execution has ended as the evaluation of the module did, with the same text
written or with the same error, unless the operand stack overflowed. -/
theorem compile_preserves_evaluate {source : String} {compilation : Compilation}
    (compiled : compile source = .ok compilation) (limits : Limits) (machine : Machine)
    {sink : Sink} (endless : sink.room = none) :
    ∃ enough, ∀ fuel, enough ≤ fuel → ∃ machine',
      (machine.execute compilation.program limits fuel sink =
        .stopped (.error (.stackOverflow limits.maxStack)) machine' sink) ∨
      (∃ text, evaluate compilation.resolved limits machine.depth machine.made = .ok text ∧
        machine.execute compilation.program limits fuel sink =
          .returned none machine' ⟨sink.written ++ text, none⟩) ∨
      (∃ error, evaluate compilation.resolved limits machine.depth machine.made =
          .error (.error error) ∧
        machine.execute compilation.program limits fuel sink =
          .stopped (.error error) machine' sink) := by
  obtain ⟨layout, index, main, linked, enters⟩ := compile_linked compiled
  obtain ⟨enough, answers⟩ := linked.execute_answers enters limits machine sink
  have final := answers.final fun _ prints => prints.final
  refine ⟨enough, fun fuel more => ?_⟩
  have settled : machine.execute compilation.program limits fuel sink =
      machine.execute compilation.program limits enough sink :=
    Machine.execute_settles enough fuel more final
  rw [settled]
  rcases answers.typed (linked.evaluate_ends enters limits machine.depth machine.made) with
    ⟨machine', overflow⟩ | ⟨text, evaluated, -, machine', prints⟩ | ⟨error, machine', failed, -, stopped⟩
  · exact ⟨machine', .inl overflow⟩
  · refine ⟨machine', .inr (.inl ⟨text, evaluated, ?_⟩)⟩
    obtain ⟨written, room⟩ := sink
    subst endless
    exact prints
  · exact ⟨machine', .inr (.inr ⟨error, failed, stopped⟩)⟩

theorem compile_preserves_evaluate_negationText : ∃ compilation,
    compile negationText = .ok compilation ∧ Sink.unlimited.room = none ∧
    evaluate compilation.resolved .standard Machine.fresh.depth Machine.fresh.made =
      .ok "false\n" ∧
    ∃ enough, ∀ fuel, enough ≤ fuel → ∃ machine',
      Machine.fresh.execute compilation.program .standard fuel .unlimited =
        .stopped (.error (.stackOverflow 65536)) machine' .unlimited ∨
      Machine.fresh.execute compilation.program .standard fuel .unlimited =
        .returned none machine' ⟨"false\n", none⟩ := by
  obtain ⟨compilation, compiled, -, -, -, -, evaluated, -⟩ := compile_negationText
  have evaluated : evaluate compilation.resolved .standard Machine.fresh.depth Machine.fresh.made =
    .ok "false\n" := evaluated
  have endless : Sink.unlimited.room = none := rfl
  obtain ⟨enough, ends⟩ := compile_preserves_evaluate compiled .standard .fresh endless
  refine ⟨compilation, compiled, endless, evaluated, enough, fun fuel more => ?_⟩
  obtain ⟨machine', overflow | ⟨text, gives, returned⟩ | ⟨error, gives, -⟩⟩ := ends fuel more
  · exact ⟨machine', .inl overflow⟩
  · cases evaluated.symm.trans gives
    exact ⟨machine', .inr returned⟩
  · cases evaluated.symm.trans gives

/-! ### Types -/

/-- The errors that a program may report although it is typed. -/
def RuntimeError.Foreseen : RuntimeError → Prop
  | .callDepthExceeded _ | .stackOverflow _ | .rangeTooLarge _ | .invalidStep _ => True
  | _ => False

theorem RuntimeError.Foreseen.of_reportable {error : RuntimeError}
    (reportable : Failure.Reportable (.error error)) : error.Foreseen := by
  cases reportable <;> trivial

/-- A run that goes on, or returns something good, or stops with a foreseen error and has written
nothing. It meets no fault. -/
inductive Progress.Safe (sink : Sink) (good : Option Value → Prop) : Progress → Prop
  | running {state : State} : Safe sink good (.running state)
  | returned {value : Option Value} {machine : Machine} {sink' : Sink} : good value →
      Safe sink good (.returned value machine sink')
  | stopped {error : RuntimeError} {machine : Machine} : error.Foreseen →
      Safe sink good (.stopped (.error error) machine sink)

theorem Linked.execute_safe {program : Program} {layout : Layout} {symbols : Symbols}
    {resolved : Resolved} (linked : Linked program layout symbols resolved.globals) {index : Nat}
    {main : FunctionDef} (enters : Enters program resolved index main) (limits : Limits)
    (machine : Machine) (fuel : Nat) (sink : Sink) :
    (machine.execute program limits fuel sink).Safe sink (· = none) ∨
      ∃ machine' sink', machine.execute program limits fuel sink =
        .stopped (.error .output) machine' sink' := by
  obtain ⟨enough, answers⟩ := linked.execute_answers enters limits machine sink
  have final := answers.final fun _ prints => prints.final
  rcases Machine.execute_settles.running_or_eq final fuel with ⟨state, running⟩ | ended
  · exact .inl (running ▸ .running)
  rw [ended]
  rcases answers.typed (linked.evaluate_ends enters limits machine.depth machine.made) with
    ⟨machine', overflow⟩ | ⟨text, -, -, machine', prints⟩ | ⟨error, machine', -, reportable, stopped⟩
  · rw [overflow]
    exact .inl (.stopped trivial)
  · rw [prints]
    rcases sink.write text with ⟨sink', fits⟩
    cases fits with
    | true => exact .inl (.returned rfl)
    | false => exact .inr ⟨machine', sink', rfl⟩
  · rw [stopped]
    exact .inl (.stopped (.of_reportable reportable))

theorem Linked.call_safe {program : Program} {layout : Layout} {symbols : Symbols}
    {globals : Globals} (linked : Linked program layout symbols globals) {index : Nat}
    {function : FunctionDef} (found : globals.functions[index]? = some function)
    {params : List SymbolId} {returns : Ty}
    (isFunction : globals.IsFunction function.sym params returns) (limits : Limits)
    (machine : Machine) (fuel : Nat) {args : List Value}
    (inhabited : AllInhabit globals args (globals.types params)) :
    (machine.call program limits fuel index args).Safe .unlimited
      fun value => ∃ result, value = some result ∧ Inhabits globals result returns := by
  obtain ⟨enough, answers⟩ := linked.call_answers found limits machine args
  have final := answers.final fun _ returns => returns.final
  rcases Machine.call_settles.running_or_eq final fuel with ⟨state, running⟩ | ended
  · exact running ▸ .running
  rw [ended]
  have ends : Ends (callFunction globals limits (limits.maxCallDepth - machine.depth) function.sym
      args machine.made) fun result => Inhabits globals result.1 returns :=
    callFunction_ends linked.typed _ isFunction ⟨function, List.mem_of_getElem? found, rfl⟩ inhabited
  rcases answers.typed ends with
    ⟨machine', overflow⟩ | ⟨result, -, isGood, machine', returned⟩ | ⟨error, machine', -, reportable, stopped⟩
  · rw [overflow]
    exact .stopped trivial
  · rw [returned]
    exact .returned ⟨result.1, rfl, isGood⟩
  · rw [stopped]
    exact .stopped (.of_reportable reportable)

/-- A compiled program meets no fault and reports only the errors that types cannot rule out, before
which it writes nothing; only the sink may fail besides. A function that is called with values of the
types of its parameters gives a value of the type that it returns. -/
theorem compile_type_safe {source : String} {compilation : Compilation}
    (compiled : compile source = .ok compilation) (limits : Limits) (machine : Machine)
    (fuel : Nat) :
    (∀ sink, (machine.execute compilation.program limits fuel sink).Safe sink (· = none) ∨
      ∃ machine' sink', machine.execute compilation.program limits fuel sink =
        .stopped (.error .output) machine' sink') ∧
    ∀ index, index < compilation.program.routines.size → ∃ function params returns,
      compilation.resolved.globals.functions[index]? = some function ∧
      compilation.resolved.globals.IsFunction function.sym params returns ∧
      ∀ args, AllInhabit compilation.resolved.globals args
          (compilation.resolved.globals.types params) →
        (machine.call compilation.program limits fuel index args).Safe .unlimited
          fun value => ∃ result, value = some result ∧
            Inhabits compilation.resolved.globals result returns := by
  obtain ⟨layout, index, main, linked, enters⟩ := compile_linked compiled
  refine ⟨linked.execute_safe enters limits machine fuel, fun index bound => ?_⟩
  rw [linked.count] at bound
  have found := List.getElem?_eq_getElem bound
  obtain ⟨params, returns, isFunction, -, -⟩ := linked.typed _ (List.getElem_mem bound)
  exact ⟨_, params, returns, found, isFunction, fun args inhabited =>
    linked.call_safe found isFunction limits machine fuel inhabited⟩

theorem compile_type_safe_negationText : ∃ compilation, compile negationText = .ok compilation ∧
    AllInhabit compilation.resolved.globals [.bool true] [.boolean] ∧
    ∀ fuel, (Machine.fresh.call compilation.program .standard fuel 0 [.bool true]).Safe .unlimited
      fun value => ∃ result, value = some result ∧
        Inhabits compilation.resolved.globals result .boolean := by
  obtain ⟨compilation, compiled, count, syms, kind, ty, -⟩ := compile_negationText
  have inhabited : AllInhabit compilation.resolved.globals [.bool true] [.boolean] :=
    .cons .bool .nil
  refine ⟨compilation, compiled, inhabited, fun fuel => ?_⟩
  obtain ⟨-, calls⟩ := compile_type_safe compiled .standard .fresh fuel
  have bound : 0 < compilation.program.routines.size := by omega
  obtain ⟨function, params, returns, found, isFunction, safe⟩ := calls 0 bound
  have sym : [0, 2][0]? = some function.sym := by
    rw [← syms, List.getElem?_map, found]
    rfl
  rw [← Option.some.inj sym] at isFunction
  cases isFunction.symm.trans kind
  refine safe _ ?_
  rw [Globals.types, List.map_singleton, ty]
  exact inhabited

/-! ### Ends -/

def spinning : Routine := ⟨"Spin", 0, 0, 0, #[.mark 0, .branch 0], #[0]⟩

theorem assemble_spinning :
    Routine.assemble "Spin" 0 0 0 1 [.mark 0, .branch 0] = .ok spinning := rfl

theorem spinning_step {program : Program} {limits : Limits} (state : State)
    (inside : state.frame.routine = spinning ∧ state.frame.pc < 2) :
    ∃ state', state.step program limits = .running state' ∧
      state'.frame.routine = spinning ∧ state'.frame.pc < 2 := by
  obtain ⟨⟨routine, args, locals, iterators, base, pc⟩, callers, machine, sink⟩ := state
  obtain ⟨rfl, bound⟩ := inside
  match pc with
  | 0 => exact ⟨_, rfl, rfl, Nat.lt_succ_self 1⟩
  | 1 => exact ⟨_, rfl, rfl, Nat.zero_lt_succ 1⟩
  | pc + 2 => exact absurd bound (by simp)

theorem spinning_never_ends (machine : Machine) (limits : Limits) (sink : Sink) (fuel : Nat)
    (room : machine.depth < limits.maxCallDepth) :
    ¬(machine.execute ⟨#[], #[], spinning⟩ limits fuel sink).Final := by
  have starts : ¬limits.maxCallDepth ≤ machine.depth := Nat.not_le_of_lt room
  simp only [Machine.execute, Machine.runRoutine, Machine.start, if_neg starts]
  exact State.run_running spinning_step fuel ⟨rfl, Nat.zero_lt_succ 1⟩

/-- A compiled program ends, whichever function is called with whatever values. The machine sees to no
such thing: a routine written by hand may go on for ever. -/
theorem compile_terminates {source : String} {compilation : Compilation}
    (compiled : compile source = .ok compilation) (limits : Limits) (machine : Machine) :
    (∀ sink, ∃ enough, ∀ fuel, enough ≤ fuel →
      (machine.execute compilation.program limits fuel sink).Final) ∧
    (∀ index args, ∃ enough, ∀ fuel, enough ≤ fuel →
      (machine.call compilation.program limits fuel index args).Final) ∧
    ∃ routine, Routine.assemble "Spin" 0 0 0 1 [.mark 0, .branch 0] = .ok routine ∧
      ∀ (machine : Machine) (limits : Limits) (sink : Sink) (fuel : Nat),
        machine.depth < limits.maxCallDepth →
        ¬(machine.execute ⟨#[], #[], routine⟩ limits fuel sink).Final := by
  obtain ⟨layout, index, main, linked, enters⟩ := compile_linked compiled
  refine ⟨fun sink => ?_, fun index args => ?_, spinning, assemble_spinning, spinning_never_ends⟩
  · obtain ⟨enough, answers⟩ := linked.execute_answers enters limits machine sink
    exact ⟨enough, Machine.execute_settles.final (answers.final fun _ prints => prints.final)⟩
  · cases found : compilation.resolved.globals.functions[index]? with
    | none =>
      have missing : compilation.program.routines[index]? = none := by
        rw [Array.getElem?_eq_none_iff, linked.count]
        exact List.getElem?_eq_none_iff.mp found
      refine ⟨0, fun fuel _ => ?_⟩
      simp only [Machine.call, Program.routine, missing]
      trivial
    | some function =>
      obtain ⟨enough, answers⟩ := linked.call_answers found limits machine args
      exact ⟨enough, Machine.call_settles.final
        (answers.final fun _ returns => returns.final)⟩

theorem compile_terminates_negationText : ∃ compilation, compile negationText = .ok compilation ∧
    (∃ enough, ∀ fuel, enough ≤ fuel →
      (Machine.fresh.execute compilation.program .standard fuel .unlimited).Final) ∧
    ∃ enough, ∀ fuel, enough ≤ fuel →
      (Machine.fresh.call compilation.program .standard fuel 0 [.text "true"]).Final := by
  obtain ⟨compilation, compiled, -⟩ := compile_negationText
  obtain ⟨executes, calls, -⟩ := compile_terminates compiled .standard .fresh
  exact ⟨compilation, compiled, executes .unlimited, calls 0 [.text "true"]⟩

end LetChain
