import LetChain.Proofs.Machine.Lockstep
import LetChain.Proofs.Machine.Resources

/-! One machine that serves requests one after another. Its counters are right throughout and back at
zero after each request, and what it answers does not depend on what it was asked before. -/

namespace LetChain

open Value (Alike)

/-- What a machine may be asked to do. -/
inductive Request where
  | execute (sink : Sink)
  | call (index : Nat) (args : List Value)

namespace Progress

/-- The machine that a run leaves when it has returned or failed; a fault leaves none. -/
def left? : Progress → Option Machine
  | .returned _ machine _ => some machine
  | .stopped (.error _) machine _ => some machine
  | _ => none

theorem Balanced.left {limits : Limits} {progress : Progress} {machine : Machine}
    (balanced : progress.Balanced limits) (left : progress.left? = some machine) :
    machine.Counts limits [] := by
  cases progress with
  | running state => cases left
  | returned value machine sink =>
    cases left
    exact balanced
  | stopped why machine sink =>
    cases why with
    | error error =>
      cases left
      exact balanced
    | fault fault => cases left

end Progress

namespace Machine

section

variable (program : Program) (limits : Limits)

/-- Serves a request, if the fuel lasts. -/
def serve (machine : Machine) (fuel : Nat) : Request → Progress
  | .execute sink => machine.execute program limits fuel sink
  | .call index args => machine.call program limits fuel index args

/-- A machine that has served some requests, none of which met a fault. -/
inductive Served : List Request → Machine → Prop
  | none : Served [] fresh
  | next {requests : List Request} {machine machine' : Machine} (before : Served requests machine)
      (request : Request) (fuel : Nat)
      (ended : (machine.serve program limits fuel request).left? = some machine') :
      Served (requests ++ [request]) machine'

end

variable {program : Program} {limits : Limits} {machine : Machine} {requests : List Request}

/-! ### Counters -/

theorem runRoutine_balanced (idle : machine.Counts limits []) (fuel : Nat) (routine : Routine)
    (args : List Value) (sink : Sink) :
    (machine.runRoutine program limits fuel routine args sink).Balanced limits := by
  obtain ⟨stack, depth, openIterators, made⟩ := machine
  have cleared : Counts ⟨#[], depth, openIterators, made⟩ limits [] := idle.shrink (Nat.zero_le _)
  simp only [runRoutine, start]
  by_cases full : limits.maxCallDepth ≤ depth
  · rw [if_pos full]
    exact cleared
  · rw [if_neg full]
    refine State.run_balanced fuel ⟨?_, ?_, cleared.stack, ?_⟩
    · simpa [State.frames] using cleared.depth
    · dsimp only
      omega
    · simpa [State.frames, Frame.openCount_enter] using cleared.iterators

theorem serve_balanced (idle : machine.Counts limits []) (fuel : Nat) (request : Request) :
    (machine.serve program limits fuel request).Balanced limits := by
  cases request with
  | execute sink => exact runRoutine_balanced idle fuel _ _ _
  | call index args =>
    simp only [serve, call]
    split
    · exact runRoutine_balanced idle fuel _ _ _
    · exact idle

theorem Served.idle (served : Served program limits requests machine) :
    machine.Counts limits [] := by
  induction served with
  | none => exact ⟨rfl, Nat.zero_le _, Nat.zero_le _, rfl⟩
  | next before request fuel ended idle =>
    exact (serve_balanced idle fuel request).left ended

/-- Between any two instructions of any request, the depth is the number of calls in progress and
within its limit, the operands are within theirs, and the open iterators are those in the slots of
these calls. After the request, returned or failed, no call and no iterator is left. -/
theorem serve_keeps_counts (served : Served program limits requests machine) (request : Request)
    (fuel : Nat) :
    (∀ state, machine.serve program limits fuel request = .running state →
      state.machine.depth = state.frames.length ∧ state.machine.depth ≤ limits.maxCallDepth ∧
        state.machine.stack.size ≤ limits.maxStack ∧
        state.machine.openIterators = (state.frames.map Frame.openCount).sum) ∧
      ∀ left, (machine.serve program limits fuel request).left? = some left →
        left.depth = 0 ∧ left.openIterators = 0 := by
  have balanced : (machine.serve program limits fuel request).Balanced limits :=
    serve_balanced served.idle fuel request
  constructor
  · intro state running
    rw [running] at balanced
    exact ⟨balanced.depth, balanced.bounded, balanced.stack, balanced.iterators⟩
  · intro left ended
    have idle := balanced.left ended
    exact ⟨idle.depth, idle.iterators⟩

/-- The first routine adds `true` to an item, inside a loop over its argument. The second makes a
record without fields. -/
def failingLoop : Program where
  routines := #[
    ⟨"Loop", 1, 0, 1,
      #[.loadParam 0, .acquire 0, .advance 0 0, .pushBool true, .binary .add, .mark 0, .release 0,
        .ret], #[5]⟩,
    ⟨"Make", 0, 0, 0, #[.construct 0, .ret], #[]⟩]
  records := #[⟨"P", [], []⟩]
  entry := .mk "Execute" 0 0 0 #[.call 1, .writeLine, .ret] #[]

theorem failingLoop_served : Served failingLoop .standard
    [.call 0 [.seq [.bool true]], .call 1 []] ⟨#[], 0, 0, 1⟩ :=
  .next (.next .none (.call 0 [.seq [.bool true]]) 5 rfl) (.call 1 []) 2 rfl

theorem serve_keeps_counts_open_loop :
    ∃ state, (⟨#[], 0, 0, 1⟩ : Machine).serve failingLoop .standard 3
        (.call 0 [.seq [.bool true]]) = .running state ∧
      state.machine.openIterators = 1 ∧
      state.machine.depth = state.frames.length ∧ state.machine.depth ≤ 1024 ∧
      state.machine.stack.size ≤ 65536 ∧
      state.machine.openIterators = (state.frames.map Frame.openCount).sum := by
  refine ⟨_, rfl, rfl, ?_⟩
  exact (serve_keeps_counts failingLoop_served (.call 0 [.seq [.bool true]]) 3).1 _ rfl

end Machine

/-! ### Answers -/

/-- A record that is there before a machine goes on: it was given, or is among those made so far. -/
def Identity.Before (made : Nat) : Identity → Prop
  | .given _ => True
  | .made number => number < made

/-- Requests that differ in the records among their arguments only. -/
inductive Request.Same (answers : Identity → Identity → Prop) : Request → Request → Prop
  | execute (sink : Sink) : Same answers (.execute sink) (.execute sink)
  | call (index : Nat) {args args' : List Value} (alike : List.Forall₂ (Alike answers) args args') :
      Same answers (.call index args) (.call index args')

namespace Machine

variable {program : Program} {limits : Limits} {machine : Machine} {requests : List Request}

/-- The records that answer to each other in a request on a used machine and on a fresh one: those
of the arguments, and those made in turn from then on. -/
def answersFrom (made : Nat) (answers : Identity → Identity → Prop) (identity identity' : Identity) :
    Prop :=
  answers identity identity' ∨
    ∃ count, identity = .made (made + count) ∧ identity' = .made count

theorem answersFrom_faithful {made : Nat} {answers : Identity → Identity → Prop}
    (faithful : Faithful answers)
    (known : ∀ identity identity', answers identity identity' →
      identity.Before made ∧ identity'.Before 0) :
    Faithful (answersFrom made answers) := by
  -- A record of the arguments is never one that is made later, on either side.
  have apart : ∀ {identity identity' : Identity}, answers identity identity' → ∀ count,
      identity ≠ .made (made + count) ∧ identity' ≠ .made count := by
    intro identity identity' answer count
    obtain ⟨before, before'⟩ := known _ _ answer
    constructor
    · rintro rfl
      exact absurd before (by simp [Identity.Before])
    · rintro rfl
      exact absurd before' (by simp [Identity.Before])
  rintro identity identity' other other' (answer | ⟨count, rfl, rfl⟩) (answer' | ⟨count', rfl, rfl⟩)
  · exact faithful answer answer'
  · simp [(apart answer count').1, (apart answer count').2]
  · simp [(apart answer' count).1.symm, (apart answer' count).2.symm]
  · simp

/-- A machine has no memory. Whatever it has served, it answers a request as a fresh machine does:
the output, the error, the number of open iterators afterwards and the value are the same, records
apart, which answer to each other one to one. -/
theorem serve_forgets (served : Served program limits requests machine)
    (answers : Identity → Identity → Prop) (faithful : Faithful answers)
    (known : ∀ identity identity', answers identity identity' →
      identity.Before machine.made ∧ identity'.Before 0)
    {request request' : Request} (alike : request.Same answers request') (fuel : Nat) :
    ∃ same, Faithful same ∧
      (∀ identity identity', answers identity identity' → same identity identity') ∧
      (machine.serve program limits fuel request).Same same
        (fresh.serve program limits fuel request') := by
  have faithful' : Faithful (answersFrom machine.made answers) := answersFrom_faithful faithful known
  have wider : ∀ identity identity', answers identity identity' →
      answersFrom machine.made answers identity identity' := fun _ _ => .inl
  have lockstep (routine : Routine) (both : routine.Twin Eq Eq routine) {args args' : List Value}
      (alike : List.Forall₂ (Alike (answersFrom machine.made answers)) args args') (sink : Sink) :
      (machine.runRoutine program limits fuel routine args sink).Same
        (answersFrom machine.made answers) (fresh.runRoutine program limits fuel routine args' sink) := by
    refine (Program.Twin.refl program).runRoutine_same faithful' served.idle.depth
      served.idle.iterators ?_ both alike sink fuel
    exact fun count => .inr ⟨count, rfl, congrArg Identity.made (Nat.zero_add count)⟩
  refine ⟨_, faithful', wider, ?_⟩
  cases alike with
  | execute sink => exact lockstep program.entry (.refl _) .nil sink
  | call index alike =>
    simp only [serve, call]
    split
    · exact lockstep _ (.refl _) (alike.imp fun _ _ both => both.mono wider) .unlimited
    · exact .stopped _ served.idle.iterators

theorem serve_forgets_made_record :
    Served failingLoop .standard [.call 0 [.seq [.bool true]], .call 1 []] ⟨#[], 0, 0, 1⟩ ∧
      ∃ same, Faithful same ∧ same (.given 0) (.given 0) ∧
        Progress.Same same
          (.returned (some (.record (.made 1) "P" [] [])) ⟨#[], 0, 0, 2⟩ .unlimited)
          (.returned (some (.record (.made 0) "P" [] [])) ⟨#[], 0, 0, 1⟩ .unlimited) := by
  refine ⟨failingLoop_served, ?_⟩
  have faithful : Faithful fun identity identity' => identity = .given 0 ∧ identity' = .given 0 := by
    rintro _ _ _ _ ⟨rfl, rfl⟩ ⟨rfl, rfl⟩
    simp
  obtain ⟨same, faithful, wider, alike⟩ :=
    serve_forgets failingLoop_served _ faithful (fun _ _ given => by
      obtain ⟨rfl, rfl⟩ := given
      exact ⟨trivial, trivial⟩) (.call 1 .nil) 2
  exact ⟨same, faithful, wider _ _ ⟨rfl, rfl⟩, alike⟩

end Machine

end LetChain
