import LetChain.Machine.Run
import LetChain.Proofs.Meaning.Evaluate

/-! Runs of the machine, and what it means that one follows an evaluation. -/

namespace LetChain

/-- A run that neither goes on nor can. -/
def Progress.Final : Progress → Prop
  | .running _ => False
  | _ => True

def Settles (run : Nat → Progress) : Prop :=
  ∀ fuel fuel', fuel ≤ fuel' → (run fuel).Final → run fuel' = run fuel

theorem Settles.final {run : Nat → Progress} (settles : Settles run) {enough : Nat}
    (final : (run enough).Final) (fuel : Nat) (more : enough ≤ fuel) : (run fuel).Final := by
  rw [settles enough fuel more final]
  exact final

theorem Settles.running_or_eq {run : Nat → Progress} (settles : Settles run) {enough : Nat}
    (final : (run enough).Final) (fuel : Nat) :
    (∃ state, run fuel = .running state) ∨ run fuel = run enough := by
  cases ended : run fuel with
  | running state => exact .inl ⟨state, rfl⟩
  | _ =>
    have final' : (run fuel).Final := by
      rw [ended]
      trivial
    rw [← ended]
    rcases Nat.le_total fuel enough with less | more
    · exact .inr (settles fuel enough less final').symm
    · exact .inr (settles enough fuel more final)

namespace State

open Meaning

variable {program : Program} {limits : Limits} {state state' state'' : State}

theorem run_add (first rest : Nat) (state : State) :
    state.run program limits (first + rest) =
      match state.run program limits first with
      | .running state => state.run program limits rest
      | done => done := by
  induction first generalizing state with
  | zero => rw [Nat.zero_add, run]
  | succ first ih =>
    rw [Nat.succ_add, run, run]
    cases state.step program limits with
    | running next => exact ih next
    | returned value machine sink => rfl
    | stopped why machine sink => rfl

theorem run_succ (stepped : state.step program limits = .running state') (fuel : Nat) :
    state.run program limits (fuel + 1) = state'.run program limits fuel := by
  rw [run, stepped]

theorem run_settles : Settles fun fuel => state.run program limits fuel := by
  intro fuel fuel' enough final
  obtain ⟨extra, rfl⟩ := Nat.exists_eq_add_of_le enough
  dsimp only at final ⊢
  rw [run_add]
  cases done : state.run program limits fuel with
  | running next =>
    rw [done] at final
    exact final.elim
  | returned value machine sink => rfl
  | stopped why machine sink => rfl

theorem run_running {inv : State → Prop}
    (next : ∀ state, inv state → ∃ state', state.step program limits = .running state' ∧ inv state')
    (fuel : Nat) {state : State} (holds : inv state) :
    ¬(state.run program limits fuel).Final := by
  induction fuel generalizing state with
  | zero => exact id
  | succ fuel ih =>
    obtain ⟨state', stepped, holds'⟩ := next state holds
    rw [run, stepped]
    exact ih holds'

/-! ### Where runs lead -/

section

variable (program limits)

/-- Some instructions lead from one state to another and write nothing. -/
def Reaches (state state' : State) : Prop :=
  state'.sink = state.sink ∧ ∃ fuel, state.run program limits fuel = .running state'

def Stops (state : State) (error : RuntimeError) : Prop :=
  ∃ fuel machine, state.run program limits fuel = .stopped (.error error) machine state.sink

end

theorem Reaches.refl : state.Reaches program limits state := ⟨rfl, 0, rfl⟩

theorem Reaches.trans (first : state.Reaches program limits state')
    (rest : state'.Reaches program limits state'') : state.Reaches program limits state'' := by
  obtain ⟨same, fuel, ran⟩ := first
  obtain ⟨same', fuel', ran'⟩ := rest
  refine ⟨same'.trans same, fuel + fuel', ?_⟩
  rw [run_add, ran]
  exact ran'

theorem Reaches.stops {error : RuntimeError} (first : state.Reaches program limits state')
    (rest : state'.Stops program limits error) : state.Stops program limits error := by
  obtain ⟨same, fuel, ran⟩ := first
  obtain ⟨fuel', machine, stopped⟩ := rest
  refine ⟨fuel + fuel', machine, ?_⟩
  rw [run_add, ran, ← same]
  exact stopped

theorem Reaches.of_step (stepped : state.step program limits = .running state')
    (same : state'.sink = state.sink) : state.Reaches program limits state' := by
  refine ⟨same, 1, ?_⟩
  rw [run, stepped]
  rfl

theorem Stops.of_step {error : RuntimeError} (stepped : state.step program limits = state'.fail error)
    (same : state'.sink = state.sink) : state.Stops program limits error := by
  refine ⟨1, state'.machine.unwind (state'.frame :: state'.callers), ?_⟩
  rw [run, stepped, ← same]
  rfl

/-! ### Following an evaluation -/

/-- A run follows an evaluation unless the stack overflows: it leads to a state that is good for the
value, or stops with the same error. Where the evaluation is stuck the run stops too. -/
def Follows {α : Type} (program : Program) (limits : Limits) (state : State)
    (result : Except Failure α) (good : α → State → Prop) : Prop :=
  state.Stops program limits (.stackOverflow limits.maxStack) ∨
    match result with
    | .ok a => ∃ state', state.Reaches program limits state' ∧ good a state'
    | .error (.error error) => state.Stops program limits error
    | .error .stuck => ∃ error, state.Stops program limits error

namespace Follows

variable {α β : Type} {result : Except Failure α} {good good' : α → State → Prop}

theorem pure {a : α} (isGood : good a state) : state.Follows program limits (.ok a) good :=
  .inr ⟨state, .refl, isGood⟩

theorem fail {error : RuntimeError} (stops : state.Stops program limits error) :
    state.Follows program limits (.error (.error error)) good :=
  .inr stops

theorem stuck {error : RuntimeError} (stops : state.Stops program limits error) :
    state.Follows program limits (.error .stuck) good :=
  .inr ⟨error, stops⟩

theorem reach (first : state.Reaches program limits state')
    (rest : state'.Follows program limits result good) :
    state.Follows program limits result good := by
  rcases rest with overflow | rest
  · exact .inl (first.stops overflow)
  · refine .inr ?_
    match result with
    | .ok a =>
      obtain ⟨last, reached, isGood⟩ := rest
      exact ⟨last, first.trans reached, isGood⟩
    | .error (.error error) => exact first.stops rest
    | .error .stuck =>
      obtain ⟨error, stops⟩ := rest
      exact ⟨error, first.stops stops⟩

theorem bind {next : α → Except Failure β} {good' : β → State → Prop}
    (first : state.Follows program limits result good)
    (rest : ∀ a state', result = .ok a → good a state' →
      state'.Follows program limits (next a) good') :
    state.Follows program limits (result >>= next) good' := by
  rcases first with overflow | first
  · exact .inl overflow
  · match result with
    | .ok a =>
      obtain ⟨middle, reached, isGood⟩ := first
      exact reach reached (rest a middle rfl isGood)
    | .error (.error error) => exact .inr first
    | .error .stuck => exact .inr first

theorem map (follows : state.Follows program limits result good) (f : α → β) :
    state.Follows program limits (result >>= fun a => Pure.pure (f a))
      fun b state' => ∃ a, b = f a ∧ good a state' :=
  follows.bind fun a _ _ isGood => pure ⟨a, rfl, isGood⟩

theorem before (follows : state.Follows program limits result good)
    (rest : ∀ a state', good a state' →
      ∃ state'', state'.Reaches program limits state'' ∧ good' a state'') :
    state.Follows program limits result good' := by
  rcases follows with overflow | follows
  · exact .inl overflow
  · refine .inr ?_
    match result with
    | .ok a =>
      obtain ⟨last, reached, isGood⟩ := follows
      obtain ⟨last', reached', isGood'⟩ := rest a last isGood
      exact ⟨last', reached.trans reached', isGood'⟩
    | .error (.error error) => exact follows
    | .error .stuck => exact follows

theorem mono (follows : state.Follows program limits result good)
    (imp : ∀ a state', good a state' → good' a state') :
    state.Follows program limits result good' :=
  follows.before fun a state' isGood => ⟨state', .refl, imp a state' isGood⟩

end Follows

end State

end LetChain
