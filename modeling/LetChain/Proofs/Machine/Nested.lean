import LetChain.Proofs.Machine.Simulated

/-! Calls within calls: with any number of levels left, a call instruction follows the call that it
makes. -/

namespace LetChain

open Meaning

namespace Call

variable {program : Program} {limits : Limits} {globals : Globals} {levels : Nat} {call : Call}
  {stack : Array Value}

theorem enter_eq (sized : call.site.routine.locals = call.site.locals.length) (opened made : Nat) :
    (⟨Frame.enter call.site.routine call.args.toArray call.base, call.callers,
      ⟨stack, call.depth, opened, made⟩, call.sink⟩ : State) =
      call.state ⟨fun _ => none, made⟩ ⟨Array.replicate call.site.routine.iterators none, opened⟩ 0
        stack := by
  have unset : (call.site.locals.map fun _ => (none : Option Value)).toArray =
      Array.replicate call.site.routine.locals none := by
    rw [sized, List.map_const', List.toArray_replicate]
  simp only [state, frame, Frame.enter, unset]

theorem body_follows (call : Call) (linked : Linked program call.site.layout call.site.symbols globals)
    (calls : CallsFollow program limits globals levels)
    (depth : call.depth + levels = limits.maxCallDepth) {function : FunctionDef}
    (member : function ∈ globals.functions) (implements : call.site.Implements function)
    (room : call.base ≤ stack.size) (opened made : Nat) :
    (⟨Frame.enter call.site.routine call.args.toArray call.base, call.callers,
      ⟨stack, call.depth, opened, made⟩, call.sink⟩ : State).Follows program limits
      (evalBlock (call.context limits globals levels) function.body ⟨fun _ => none, made⟩)
      fun result state' => ∃ loops stop, call.site.Has stop .ret ∧
        state' = call.state result.2 loops stop (stack.push result.1) := by
  obtain ⟨params, returns, _, _, bodyRule⟩ := linked.typed function member
  obtain ⟨stop, code, ends, -⟩ := implements.code
  have ready : call.Ready program limits globals levels := ⟨linked, implements.nodup, depth, calls⟩
  rw [enter_eq implements.locals]
  refine (evalBlock_runs ready function.body bodyRule code room _ _ (by simp)).mono ?_
  rintro result _ ⟨loops, _, rfl⟩
  exact ⟨loops, stop, ends, rfl⟩

theorem ret_follows {caller : Call} {store callerStore : Store} {loops callerLoops : Loops}
    {stop pc : Nat} {value : Value} (has : call.site.Has stop .ret)
    (callers : call.callers = caller.frame callerStore callerLoops pc :: caller.callers)
    (depth : call.depth = caller.depth + 1) (sink : call.sink = caller.sink)
    (base : call.base = stack.size) :
    (call.state store loops stop (stack.push value)).Follows program limits
      (.ok (value, store.made)) fun result state' => ∃ opened,
        state' = caller.state { callerStore with made := result.2 }
          ⟨callerLoops.iterators, opened⟩ pc (stack.push result.1) := by
  let opened := loops.opened - (call.frame store loops (stop + 1)).openCount
  let store' : Store := ⟨callerStore.locals, store.made⟩
  have above : stack.size < (stack.push value).size := by simp
  have shrunk : (stack.push value).shrink stack.size = stack := by simp
  have stepped : (call.state store loops stop (stack.push value)).step program limits =
      (caller.state store' ⟨callerLoops.iterators, opened⟩ pc stack).push limits value := by
    rw [step_eq has]
    simp only [State.exec, State.ret, state, frame, callers, base, if_pos above, Array.back?_push,
      shrunk, Machine.leave, depth, sink]
    rfl
  exact follows_push stepped sink ⟨opened, rfl⟩

end Call

variable {program : Program} {layout : Layout} {symbols : Symbols} {globals : Globals}

theorem callsFollow_zero (linked : Linked program layout symbols globals) (limits : Limits) :
    CallsFollow program limits globals 0 := by
  intro call store loops pc stack index function args found arity has room depth
  obtain ⟨routine, routineAt, implements⟩ := linked.routine index function found
  have arity : args.length = routine.params := arity.trans implements.params.symm
  have full : limits.maxCallDepth ≤ call.depth := by omega
  have stepped : (call.state store loops pc (stack ++ args.toArray)).step program limits = _ :=
    Call.step_eq has
  simp only [State.exec, Program.routine, routineAt, State.call, ← arity] at stepped
  rw [Call.popMany_append room] at stepped
  exact .fail (.of_step (stepped.trans (if_pos full)) rfl)

theorem callsFollow_succ (linked : Linked program layout symbols globals) {limits : Limits}
    {levels : Nat} (inner : CallsFollow program limits globals levels) :
    CallsFollow program limits globals (levels + 1) := by
  intro call store loops pc stack index function args found arity has room depth
  obtain ⟨routine, routineAt, implements⟩ := linked.routine index function found
  have arity : args.length = routine.params := arity.trans implements.params.symm
  have below : ¬limits.maxCallDepth ≤ call.depth := by omega
  let callee : Call := ⟨⟨layout, symbols, routine, function.body.locals⟩, args, stack.size,
    call.frame store loops (pc + 1) :: call.callers, call.depth + 1, call.sink⟩
  have stepped : (call.state store loops pc (stack ++ args.toArray)).step program limits = _ :=
    Call.step_eq has
  simp only [State.exec, Program.routine, routineAt, State.call, ← arity] at stepped
  rw [Call.popMany_append room] at stepped
  have depth : callee.depth + levels = limits.maxCallDepth := by
    change call.depth + 1 + levels = limits.maxCallDepth
    omega
  have body := callee.body_follows linked inner depth (List.mem_of_getElem? found) implements
    (Nat.le_refl stack.size) loops.opened store.made
  rw [callFunction, linked.find?_eq_some found]
  refine .reach (.of_step (stepped.trans (if_neg below)) rfl) ?_
  refine body.bind ?_
  rintro ⟨value, store'⟩ _ - ⟨loops', stop, returns, rfl⟩
  exact Call.ret_follows returns rfl rfl rfl rfl

theorem callsFollow (linked : Linked program layout symbols globals) (limits : Limits)
    (levels : Nat) : CallsFollow program limits globals levels := by
  induction levels with
  | zero => exact callsFollow_zero linked limits
  | succ levels ih => exact callsFollow_succ linked ih

end LetChain
