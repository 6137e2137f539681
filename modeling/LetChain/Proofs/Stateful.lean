import LetChain.CompileError

/-! Computations with a state that may fail: what a run that succeeded went through. -/

namespace LetChain.Stateful

variable {σ ε α β : Type}

theorem except_bind_eq_ok {m : Except ε α} {f : α → Except ε β} {c : β} :
    m >>= f = .ok c ↔ ∃ a, m = .ok a ∧ f a = .ok c := by
  cases m <;> simp [bind, Except.bind]

theorem exists_eq_ok {result : Except ε α} {good : α → Prop}
    (holds : match result with
      | .ok a => good a
      | .error _ => False) : ∃ a, result = .ok a ∧ good a := by
  cases result with
  | error error => exact holds.elim
  | ok a => exact ⟨a, rfl, holds⟩

theorem mapError_eq_ok {ε' : Type} {f : ε → ε'} {result : Except ε α} {a : α} :
    result.mapError f = .ok a ↔ result = .ok a := by
  cases result with
  | error error => exact ⟨nofun, nofun⟩
  | ok value =>
    exact ⟨fun ran => congrArg Except.ok (Except.ok.inj ran),
      fun ran => congrArg Except.ok (Except.ok.inj ran)⟩

theorem mapM_eq_ok {f : α → Except ε β} : ∀ {xs : List α} {ys : List β},
    xs.mapM f = .ok ys → ys.length = xs.length ∧
      ∀ (index : Nat) (x : α), xs[index]? = some x → ∃ y, ys[index]? = some y ∧ f x = .ok y
  | [], ys, ran => by
    cases ran
    exact ⟨rfl, nofun⟩
  | x :: xs, ys, ran => by
    rw [List.mapM_cons] at ran
    obtain ⟨y, first, ran⟩ := except_bind_eq_ok.mp ran
    obtain ⟨rest, others, ran⟩ := except_bind_eq_ok.mp ran
    cases ran
    obtain ⟨length, each⟩ := mapM_eq_ok others
    refine ⟨congrArg Nat.succ length, fun index found present => ?_⟩
    cases index with
    | zero =>
      cases present
      exact ⟨y, rfl, first⟩
    | succ index => exact each index found present

theorem mapM_outcome {f : α → Except ε β} : ∀ (xs : List α),
    (∃ ys, xs.mapM f = .ok ys ∧ ∀ x ∈ xs, ∃ y, f x = .ok y) ∨
      ∃ x ∈ xs, ∃ error, f x = .error error ∧ xs.mapM f = .error error
  | [] => Or.inl ⟨[], rfl, nofun⟩
  | x :: xs => by
    rw [List.mapM_cons]
    cases first : f x with
    | error error => exact Or.inr ⟨x, List.mem_cons_self, error, first, rfl⟩
    | ok y =>
      rcases mapM_outcome (f := f) xs with ⟨ys, rest, each⟩ | ⟨x', member, error, failed, rest⟩
      · refine Or.inl ⟨y :: ys, by rw [rest]; rfl, fun x' member => ?_⟩
        rcases List.mem_cons.mp member with rfl | later
        · exact ⟨y, first⟩
        · exact each x' later
      · exact Or.inr ⟨x', List.mem_cons_of_mem _ member, error, failed, by rw [rest]; rfl⟩

theorem bind_eq_ok {m : StateT σ (Except ε) α} {f : α → StateT σ (Except ε) β} {s s'' : σ}
    {c : β} :
    (m >>= f) s = .ok (c, s'') ↔ ∃ a s', m s = .ok (a, s') ∧ f a s' = .ok (c, s'') := by
  change (m s >>= fun p => f p.1 p.2) = _ ↔ _
  cases m s with
  | error error => simp [bind, Except.bind]
  | ok p =>
    exact ⟨fun ran => ⟨p.1, p.2, rfl, ran⟩, fun ⟨_, _, first, ran⟩ => by cases first; exact ran⟩

theorem get_bind {f : σ → StateT σ (Except ε) α} {s : σ} :
    ((get : StateT σ (Except ε) σ) >>= f) s = f s s := rfl

theorem lift_eq_ok {result : Except ε α} {a : α} {s s' : σ} :
    (liftM result : StateT σ (Except ε) α) s = .ok (a, s') ↔ result = .ok a ∧ s = s' := by
  cases result with
  | error error => exact ⟨fun ran => (by cases ran), fun ⟨wrong, _⟩ => (by cases wrong)⟩
  | ok value =>
    change (Except.ok (value, s) : Except ε (α × σ)) = .ok (a, s') ↔ _
    simp

end LetChain.Stateful
