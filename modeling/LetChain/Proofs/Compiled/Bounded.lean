import LetChain.Proofs.Compiled.Verification
import LetChain.Proofs.Machine.Room

/-! The stack that compiled code needs is known from the code. -/

namespace LetChain

theorem compile_measured {source : String} {compilation : Compilation}
    (compiled : compile source = .ok compilation) : compilation.program.Measured := by
  obtain ⟨layout, index, main, linked, entry, found, -, noParams⟩ := compile_linked compiled
  intro routine known
  rcases List.mem_cons.mp known with rfl | member
  · rw [entry]
    exact ⟨0, linked.entry_verified found noParams⟩
  · exact ⟨1, linked.routine_verified (Array.mem_toList_iff.mp member)⟩

/-- Compiled code has a static bound on the stack. At no point of a run has any call more operands than
the code says, however long its loops and chains of bindings are, and if the stack has room for so
many operands of each call that the limits allow it never overflows. -/
theorem compile_stack_bounded {source : String} {compilation : Compilation}
    (compiled : compile source = .ok compilation) (machine : Machine) (limits : Limits) (fuel : Nat)
    (sink : Sink) :
    (∀ state, machine.execute compilation.program limits fuel sink = .running state →
      ∀ share ∈ Frame.shares state.machine.stack.size (state.frame :: state.callers),
        share ≤ compilation.program.stackBound) ∧
    (compilation.program.stackBound * limits.maxCallDepth ≤ limits.maxStack →
      ∀ limit machine' sink', machine.execute compilation.program limits fuel sink ≠
        .stopped (.error (.stackOverflow limit)) machine' sink') := by
  have measured := compile_measured compiled
  have fits := machine.execute_fits measured limits fuel sink
  constructor
  · intro state running share member
    rw [running] at fits
    obtain ⟨count, place, holds⟩ := fits
    rcases List.mem_cons.mp member with rfl | others
    · have least := place.count_le measured
      have stack := holds.stack
      omega
    · exact holds.callers.shares_le measured share others
  · intro room limit machine' sink' stopped
    rw [stopped] at fits
    exact fits room limit rfl

def unequalText : String := "func Main()->Boolean\x7btrue!=false\x7d"

theorem compile_unequalText : ∃ compilation, compile unequalText = .ok compilation ∧
    compilation.program.stackBound = 2 := by
  have chars : unequalText.toList = _ := String.toList_ofList
  apply Stateful.exists_eq_ok
  rw [compile, compileWith, resolveSource, parseModule, parseWith, Token.scan, chars]
  cbv

theorem compile_stack_bounded_unequalText : ∃ compilation, compile unequalText = .ok compilation ∧
    compilation.program.stackBound = 2 ∧
    ∀ fuel limit machine sink, Machine.fresh.execute compilation.program .standard fuel .unlimited ≠
      .stopped (.error (.stackOverflow limit)) machine sink := by
  obtain ⟨compilation, compiled, isBound⟩ := compile_unequalText
  have room : compilation.program.stackBound * Limits.standard.maxCallDepth ≤
      Limits.standard.maxStack := by
    rw [isBound]
    decide
  refine ⟨compilation, compiled, isBound, fun fuel => ?_⟩
  exact (compile_stack_bounded compiled .fresh .standard fuel .unlimited).2 room

end LetChain
