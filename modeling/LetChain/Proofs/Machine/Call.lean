import LetChain.Proofs.Lowering.Placed
import LetChain.Proofs.Machine.Follows

/-! One call of a routine: its states while it follows an evaluation of its body, and what each
instruction does to them. -/

namespace LetChain

open Meaning

structure Call where
  site : Site
  args : List Value
  base : Nat
  callers : List Frame
  depth : Nat
  sink : Sink

structure Loops where
  iterators : Array (Option (List Value))
  opened : Nat

structure Loops.Kept (low : Nat) (before after : Loops) : Prop where
  size : after.iterators.size = before.iterators.size
  below : ∀ index, index < low → after.iterators[index]? = before.iterators[index]?

namespace Loops.Kept

variable {low low' : Nat} {loops loops' loops'' : Loops}

theorem refl : Kept low loops loops := ⟨rfl, fun _ _ => rfl⟩

theorem trans (first : Kept low loops loops') (rest : Kept low loops' loops'') :
    Kept low loops loops'' :=
  ⟨rest.size.trans first.size,
    fun index below => (rest.below index below).trans (first.below index below)⟩

theorem mono (kept : Kept low loops loops') (bound : low' ≤ low) : Kept low' loops loops' :=
  ⟨kept.size, fun index below => kept.below index (Nat.lt_of_lt_of_le below bound)⟩

theorem set {index opened : Nat} (bound : low ≤ index) (iterator : Option (List Value)) :
    Kept low loops ⟨loops.iterators.setIfInBounds index iterator, opened⟩ := by
  refine ⟨by simp, fun other below => ?_⟩
  rw [Array.getElem?_setIfInBounds_ne]
  omega

end Loops.Kept

namespace Call

section

variable (call : Call)

/-- The frame of a call whose locals have the values of a store. -/
def frame (store : Store) (loops : Loops) (pc : Nat) : Frame :=
  ⟨call.site.routine, call.args.toArray, (call.site.locals.map store.locals).toArray,
    loops.iterators, call.base, pc⟩

def state (store : Store) (loops : Loops) (pc : Nat) (stack : Array Value) : State :=
  ⟨call.frame store loops pc, call.callers, ⟨stack, call.depth, loops.opened, store.made⟩,
    call.sink⟩

end

variable {program : Program} {limits : Limits} {call : Call} {store : Store} {loops : Loops}
  {pc pc' pc₁ : Nat} {stack : Array Value}

@[simp] theorem state_sink : (call.state store loops pc stack).sink = call.sink := rfl

theorem step_eq {instr : Instr} (has : call.site.Has pc instr) :
    (call.state store loops pc stack).step program limits =
      (call.state store loops (pc + 1) stack).exec program limits instr := by
  have found : call.site.routine.code[pc]? = some instr := has
  simp only [State.step, state, frame, found]

/-! ### What the parts of instructions do -/

theorem pop_push {value : Value} {next : Value → State → Progress}
    (room : call.base ≤ stack.size) :
    (call.state store loops pc (stack.push value)).pop next =
      next value (call.state store loops pc stack) := by
  have notEmpty : ¬(stack.push value).size ≤ call.base := by
    rw [Array.size_push]
    omega
  simp only [state, frame, State.pop, if_neg notEmpty, Array.back?_push, Array.pop_push]

theorem popNumber_push {value : Value} {instr : String} {next : Float → State → Progress}
    (room : call.base ≤ stack.size) :
    (call.state store loops pc (stack.push value)).popNumber instr next =
      match value with
      | .number number => next number (call.state store loops pc stack)
      | other => (call.state store loops pc stack).fail (.typeMismatch instr "number" other.kind) := by
  refine (pop_push room).trans ?_
  cases value <;> rfl

theorem popMany_append {values : List Value} {next : Array Value → State → Progress}
    (room : call.base ≤ stack.size) :
    (call.state store loops pc (stack ++ values.toArray)).popMany values.length next =
      next values.toArray (call.state store loops pc stack) := by
  have size : (stack ++ values.toArray).size = stack.size + values.length := by simp
  have enough : ¬stack.size + values.length < call.base + values.length := by omega
  simp only [state, frame, State.popMany, size, if_neg enough]
  congr 1 <;> simp

theorem jump_eq {label : Label} (leads : call.site.Leads label pc') :
    (call.state store loops pc stack).jump label =
      .running (call.state store loops pc' stack) := by
  have found : call.site.routine.labels[label]? = some pc' := leads
  simp only [state, frame, State.jump, found]

theorem branchIfFalse_push {cond : Value} {otherwise : Label} (room : call.base ≤ stack.size)
    (leads : call.site.Leads otherwise pc') :
    (call.state store loops pc (stack.push cond)).branchIfFalse otherwise =
      match cond with
      | .bool true => .running (call.state store loops pc stack)
      | .bool false => .running (call.state store loops pc' stack)
      | other => (call.state store loops pc stack).fail (.mismatch "br.false" "bool" other) := by
  refine (pop_push room).trans ?_
  cases cond with
  | bool value =>
    cases value with
    | true => rfl
    | false => exact jump_eq leads
  | _ => rfl

/-! ### Parts of a body -/

/-- The code from `pc` to `pc'` follows an evaluation: it finds the operands `pre` and leaves `post`,
and uses no iterator below `low`. -/
def Runs {α : Type} (call : Call) (program : Program) (limits : Limits) (low : Nat)
    (pre : Array Value) (act : Eval α) (pc pc' : Nat) (post : α → Array Value) : Prop :=
  ∀ store loops, loops.iterators.size = call.site.routine.iterators →
    (call.state store loops pc pre).Follows program limits (act store) fun result state' =>
      ∃ loops', loops.Kept low loops' ∧ state' = call.state result.2 loops' pc' (post result.1)

def Yields {α : Type} (act : Eval α) (a : α) : Prop := ∃ store store', act store = .ok (a, store')

theorem locals_assign {locals : List SymbolId} {sym : SymbolId} {slot : Nat} {store : Store}
    {value : Value} (nodup : locals.Nodup) (found : locals[slot]? = some sym) :
    (locals.map store.locals).toArray.setIfInBounds slot (some value) =
      (locals.map fun other => if other = sym then some value else store.locals other).toArray := by
  rw [List.setIfInBounds_toArray]
  congr 1
  apply List.ext_getElem?
  intro index
  rw [List.getElem?_set, List.getElem?_map, List.getElem?_map, List.length_map]
  obtain ⟨bound, isSym⟩ := List.getElem?_eq_some_iff.mp found
  by_cases same : slot = index
  · subst same
    simp [bound, isSym]
  · rw [if_neg same]
    cases other : locals[index]? with
    | none => rfl
    | some name =>
      have different : name ≠ sym := by
        rintro rfl
        exact same ((List.getElem?_inj bound nodup).mp (found.trans other.symm))
      simp [different]

theorem follows_push {α : Type} {a : α} {good : α → State → Prop} {state : State} {value : Value}
    (stepped : state.step program limits = (call.state store loops pc stack).push limits value)
    (same : state.sink = call.sink)
    (isGood : good a (call.state store loops pc (stack.push value))) :
    state.Follows program limits (.ok a) good := by
  by_cases full : limits.maxStack ≤ stack.size
  · have fails : state.step program limits =
        (call.state store loops pc stack).fail (.stackOverflow limits.maxStack) :=
      stepped.trans (if_pos full)
    exact .inl (.of_step fails same.symm)
  · have goes : state.step program limits =
        .running (call.state store loops pc (stack.push value)) :=
      stepped.trans (if_neg full)
    exact .inr ⟨_, .of_step goes same.symm, isGood⟩

namespace Runs

variable {α β : Type} {low : Nat} {pre pre' : Array Value} {act : Eval α}
  {post post' : α → Array Value}

theorem pure {a : α} (same : post a = pre) : call.Runs program limits low pre (pure a) pc pc post :=
  fun _ loops _ => .pure ⟨loops, .refl, by rw [← same]⟩

theorem lower {low' : Nat} (runs : call.Runs program limits low pre act pc pc' post)
    (bound : low' ≤ low) : call.Runs program limits low' pre act pc pc' post :=
  fun store loops sized => (runs store loops sized).mono fun _ _ ⟨loops', kept, same⟩ =>
    ⟨loops', kept.mono bound, same⟩

theorem bind {next : α → Eval β} {post' : β → Array Value}
    (first : call.Runs program limits low pre act pc pc₁ post)
    (rest : ∀ a, Yields act a → call.Runs program limits low (post a) (next a) pc₁ pc' post') :
    call.Runs program limits low pre (act >>= next) pc pc' post' := by
  intro store loops sized
  refine (first store loops sized).bind fun result state' gives ⟨loops₁, kept, same⟩ => ?_
  subst same
  have later := rest result.1 ⟨store, result.2, gives⟩ result.2 loops₁ (kept.size.trans sized)
  exact later.mono fun _ _ ⟨loops', kept', same⟩ => ⟨loops', kept.trans kept', same⟩

theorem after (silent : call.Runs program limits low pre (Pure.pure ()) pc pc₁ fun _ => pre')
    (rest : call.Runs program limits low pre' act pc₁ pc' post) :
    call.Runs program limits low pre act pc pc' post :=
  bind silent fun _ _ => rest

theorem before (first : call.Runs program limits low pre act pc pc₁ post)
    (silent : ∀ a, call.Runs program limits low (post a) (Pure.pure ()) pc₁ pc' fun _ => post' a) :
    call.Runs program limits low pre act pc pc' post' := by
  have both : call.Runs program limits low pre
      (act >>= fun a => Pure.pure () >>= fun _ => Pure.pure a) pc pc' post' :=
    bind first fun a _ => bind (silent a) fun _ _ => pure rfl
  simpa only [pure_bind, bind_pure] using both

theorem silently {a : α} (runs : call.Runs program limits low pre (Pure.pure a) pc pc' post) :
    call.Runs program limits low pre (Pure.pure ()) pc pc' fun _ => post a := by
  have both : call.Runs program limits low pre (Pure.pure a >>= fun _ => Pure.pure ()) pc pc'
      fun _ => post a := by
    refine bind runs fun b ⟨_, _, gives⟩ => ?_
    cases gives
    exact pure rfl
  simpa only [pure_bind] using both

theorem of_reaches (reaches : ∀ store loops,
    (call.state store loops pc pre).Reaches program limits (call.state store loops pc' pre')) :
    call.Runs program limits low pre (Pure.pure ()) pc pc' fun _ => pre' :=
  fun store loops _ => .inr ⟨_, reaches store loops, loops, .refl, rfl⟩

theorem push {instr : Instr} {value : Value} (has : call.site.Has pc instr)
    (pushes : ∀ state, State.exec program limits state instr = state.push limits value) :
    call.Runs program limits low stack (Pure.pure value) pc (pc + 1) stack.push :=
  fun _ _ _ => follows_push ((step_eq has).trans (pushes _)) rfl ⟨_, .refl, rfl⟩

theorem mark {label : Label} (has : call.site.Has pc (.mark label)) :
    call.Runs program limits low stack (Pure.pure ()) pc (pc + 1) fun _ => stack :=
  of_reaches fun _ _ => .of_step (step_eq has) rfl

theorem branchTo {label : Label} (has : call.site.Has pc (.branch label))
    (leads : call.site.Leads label pc') :
    call.Runs program limits low stack (Pure.pure ()) pc pc' fun _ => stack :=
  of_reaches fun _ _ => .of_step ((step_eq has).trans (jump_eq leads)) rfl

theorem drop {value : Value} (has : call.site.Has pc .pop) (room : call.base ≤ stack.size) :
    call.Runs program limits low (stack.push value) (Pure.pure ()) pc (pc + 1) fun _ => stack := by
  refine of_reaches fun store loops => .of_step ?_ rfl
  rw [step_eq has]
  simp only [State.exec]
  rw [pop_push room]

theorem box {value : Value} (has : call.site.Has pc .box) (room : call.base ≤ stack.size) :
    call.Runs program limits low (stack.push value) (Pure.pure ()) pc (pc + 1)
      fun _ => stack.push (.boxed value) := by
  have pushed : call.Runs program limits low (stack.push value) (Pure.pure (Value.boxed value)) pc
      (pc + 1) stack.push := by
    refine fun store loops _ => follows_push ?_ rfl ⟨loops, .refl, rfl⟩
    rw [step_eq has]
    simp only [State.exec]
    rw [pop_push room]
  exact pushed.silently

theorem assign (value : Value) {sym : SymbolId} {slot : Nat}
    (has : call.site.Has pc (.storeLocal slot)) (hasSlot : call.site.Slot sym slot)
    (nodup : call.site.locals.Nodup) (room : call.base ≤ stack.size) :
    call.Runs program limits low (stack.push value) (assign sym value) pc (pc + 1)
      fun _ => stack := by
  intro store loops _
  have bound : slot < (call.site.locals.map store.locals).toArray.size := by
    simpa using (List.getElem?_eq_some_iff.mp hasSlot).1
  let locals := fun other => if other = sym then some value else store.locals other
  refine .inr ⟨call.state ⟨locals, store.made⟩ loops (pc + 1) stack, .of_step ?_ rfl, loops, .refl,
    rfl⟩
  rw [step_eq has]
  simp only [State.exec, State.storeLocal]
  rw [pop_push room]
  refine (if_pos bound).trans ?_
  simp only [Call.state, Call.frame, locals_assign nodup hasSlot]
  rfl

theorem branch {cond : Value} {yes no : Eval α} {otherwise : Label} {target : Nat}
    (has : call.site.Has pc (.branchIfFalse otherwise)) (leads : call.site.Leads otherwise target)
    (room : call.base ≤ stack.size)
    (yesRuns : call.Runs program limits low stack yes (pc + 1) pc' post)
    (noRuns : call.Runs program limits low stack no target pc' post) :
    call.Runs program limits low (stack.push cond) (branch cond yes no) pc pc' post := by
  have stepped (store : Store) (loops : Loops) :
      (call.state store loops pc (stack.push cond)).step program limits = _ :=
    (step_eq has).trans (branchIfFalse_push room leads)
  cases cond with
  | bool value =>
    cases value with
    | true => exact after (of_reaches fun store loops => .of_step (stepped store loops) rfl) yesRuns
    | false => exact after (of_reaches fun store loops => .of_step (stepped store loops) rfl) noRuns
  | _ => exact fun store loops _ => .stuck (.of_step (stepped store loops) rfl)

end Runs

end Call

end LetChain
