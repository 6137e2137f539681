import LetChain.Proofs.Code.Verified

/-! The number of operands at every instruction, computed from the code alone. Control is followed from
the first instruction to all that it can reach; in verified code it does not matter along which way. -/

namespace LetChain

namespace Routine

/-- Where control may go from a place with so many operands. -/
def exitsAt (program : Program) (routine : Routine) (pc height : Nat) : List (Nat × Nat) :=
  (routine.code[pc]?).elim [] (·.exits program routine pc height)

/-- Follows control from the places given, each with its number of operands, to all that are not known
yet. -/
def spread (program : Program) (routine : Routine) (heights : Array (Option Nat)) :
    List (Nat × Nat) → Array (Option Nat)
  | [] => heights
  | (pc, height) :: rest =>
    if heights[pc]? = some none then
      spread program routine (heights.setIfInBounds pc (some height))
        (routine.exitsAt program pc height ++ rest)
    else spread program routine heights rest
termination_by todo => (heights.toList.countP Option.isNone, todo.length)
decreasing_by
  · rename_i unknown
    obtain ⟨bound, here⟩ := Array.getElem?_eq_some_iff.mp unknown
    have listed : heights.toList[pc]? = some none := by rwa [Array.getElem?_toList]
    have counted : 0 < heights.toList.countP Option.isNone :=
      List.countP_pos_iff.mpr ⟨none, List.mem_of_getElem? listed, rfl⟩
    refine Prod.Lex.left _ _ ?_
    rw [Array.toList_setIfInBounds, List.countP_set (by simpa using bound), Array.getElem_toList, here]
    simp only [Option.isNone_none, Option.isNone_some, if_true, Bool.false_eq_true, if_false]
    omega
  · exact Prod.Lex.right _ (Nat.lt_succ_self _)

def heights (program : Program) (routine : Routine) : Array (Option Nat) :=
  routine.spread program (Array.replicate routine.code.size none) [(0, 0)]

def heightsAt (program : Program) (routine : Routine) (pc : Nat) : List Nat :=
  match (routine.heights program)[pc]?, routine.code[pc]? with
  | some (some height), some instr => [height, height - instr.pops program + instr.pushes]
  | _, _ => []

/-- The largest number of operands before or after any instruction. -/
def peak (program : Program) (routine : Routine) : Nat :=
  ((List.range routine.code.size).flatMap (routine.heightsAt program)).max?.getD 0

end Routine

/-- The largest number of operands that a call needs. -/
def Program.stackBound (program : Program) : Nat :=
  ((program.entry :: program.routines.toList).map (·.peak program)).max?.getD 0

/-! ### Following control -/

/-- What is known agrees with the heights of verified code, and is complete but for what is to be done
yet. -/
structure Routine.Flows (program : Program) (routine : Routine) (height : Nat → Nat)
    (heights : Array (Option Nat)) (todo : List (Nat × Nat)) : Prop where
  size : heights.size = routine.code.size
  right : ∀ pc known, heights[pc]? = some (some known) → known = height pc
  pending : ∀ next ∈ todo, next.1 < routine.code.size ∧ height next.1 = next.2
  closed : ∀ pc known, heights[pc]? = some (some known) →
    ∀ next ∈ routine.exitsAt program pc known, next ∈ todo ∨ heights[next.1]? = some (some next.2)
  start : (0, 0) ∈ todo ∨ heights[0]? = some (some 0)

namespace Routine.Flows

variable {program : Program} {routine : Routine} {height : Nat → Nat} {heights : Array (Option Nat)}
  {todo rest : List (Nat × Nat)} {next : Nat × Nat}

theorem skip (flows : routine.Flows program height heights (next :: rest))
    (known : ¬heights[next.1]? = some none) : routine.Flows program height heights rest := by
  obtain ⟨bound, same⟩ := flows.pending next List.mem_cons_self
  have here : heights[next.1]? = some (some next.2) := by
    have inside : next.1 < heights.size := flows.size ▸ bound
    cases entry : heights[next.1]? with
    | none => exact absurd entry (by simp [inside])
    | some found =>
      cases found with
      | none => exact absurd entry known
      | some value => rw [flows.right _ _ entry, same]
  refine ⟨flows.size, flows.right, fun other member => flows.pending other (.tail _ member), ?_, ?_⟩
  · intro pc value found other member
    rcases flows.closed pc value found other member with isTodo | isKnown
    · rcases List.mem_cons.mp isTodo with rfl | isRest
      · exact .inr here
      · exact .inl isRest
    · exact .inr isKnown
  · rcases flows.start with isTodo | isKnown
    · rcases List.mem_cons.mp isTodo with rfl | isRest
      · exact .inr here
      · exact .inl isRest
    · exact .inr isKnown

theorem take (flow : ∀ pc, ∀ next ∈ routine.exitsAt program pc (height pc),
      next.1 < routine.code.size ∧ height next.1 = next.2)
    (flows : routine.Flows program height heights (next :: rest))
    (unknown : heights[next.1]? = some none) :
    routine.Flows program height (heights.setIfInBounds next.1 (some next.2))
      (routine.exitsAt program next.1 next.2 ++ rest) := by
  obtain ⟨pc, value⟩ := next
  obtain ⟨bound, same⟩ := flows.pending (pc, value) List.mem_cons_self
  dsimp only at *
  subst same
  have inside : pc < heights.size := flows.size ▸ bound
  have here : (heights.setIfInBounds pc (some (height pc)))[pc]? = some (some (height pc)) := by
    simp [inside]
  have kept {other known : Nat} (found : heights[other]? = some (some known)) :
      (heights.setIfInBounds pc (some (height pc)))[other]? = some (some known) := by
    have differ : pc ≠ other := by
      rintro rfl
      cases unknown.symm.trans found
    rw [Array.getElem?_setIfInBounds_ne differ, found]
  have before {other known : Nat}
      (found : (heights.setIfInBounds pc (some (height pc)))[other]? = some (some known)) :
      other = pc ∧ known = height pc ∨ heights[other]? = some (some known) := by
    by_cases same : pc = other
    · subst same
      cases here.symm.trans found
      exact .inl ⟨rfl, rfl⟩
    · rw [Array.getElem?_setIfInBounds_ne same] at found
      exact .inr found
  have move {other : Nat × Nat} (found : other ∈ (pc, height pc) :: rest ∨
      heights[other.1]? = some (some other.2)) :
      other ∈ routine.exitsAt program pc (height pc) ++ rest ∨
        (heights.setIfInBounds pc (some (height pc)))[other.1]? = some (some other.2) := by
    rcases found with isTodo | isKnown
    · rcases List.mem_cons.mp isTodo with rfl | isRest
      · exact .inr here
      · exact .inl (List.mem_append_right _ isRest)
    · exact .inr (kept isKnown)
  constructor
  case size => rw [Array.size_setIfInBounds, flows.size]
  case right =>
    intro other known found
    rcases before found with ⟨rfl, rfl⟩ | earlier
    · rfl
    · exact flows.right other known earlier
  case pending =>
    intro other member
    rcases List.mem_append.mp member with isExit | isRest
    · exact flow pc other isExit
    · exact flows.pending other (.tail _ isRest)
  case closed =>
    intro other known found exit member
    rcases before found with ⟨rfl, rfl⟩ | earlier
    · exact .inl (List.mem_append_left _ member)
    · exact move (flows.closed other known earlier exit member)
  case start => exact move flows.start

theorem spread (flow : ∀ pc, ∀ next ∈ routine.exitsAt program pc (height pc),
      next.1 < routine.code.size ∧ height next.1 = next.2)
    (flows : routine.Flows program height heights todo) :
    routine.Flows program height (routine.spread program heights todo) [] := by
  fun_induction routine.spread program heights todo with
  | case1 heights => exact flows
  | case2 heights pc value rest unknown ih => exact ih (flows.take flow unknown)
  | case3 heights pc value rest known ih => exact ih (flows.skip known)

end Routine.Flows

namespace Routine.Verified

variable {program : Program} {routine : Routine} {result : Nat}

theorem flows (verified : routine.Verified program result) :
    ∃ height, routine.Flows program height (routine.heights program) [] := by
  obtain ⟨height, zero, flow⟩ := verified.heights
  obtain ⟨last, size, -⟩ := verified.ret
  refine ⟨height, Flows.spread ?_ ⟨Array.size_replicate, ?_, ?_, ?_, .inl List.mem_cons_self⟩⟩
  · intro pc next member
    rw [exitsAt] at member
    cases found : routine.code[pc]? with
    | none => simp [found] at member
    | some instr =>
      rw [found, Option.elim_some] at member
      exact (flow pc instr found).2.2 next member
  · intro pc known found
    simp [Array.getElem?_replicate] at found
  · intro next member
    rw [List.mem_singleton.mp member]
    exact ⟨by omega, zero⟩
  · intro pc known found
    simp [Array.getElem?_replicate] at found

theorem heights_start (verified : routine.Verified program result) :
    (routine.heights program)[0]? = some (some 0) := by
  obtain ⟨height, flows⟩ := verified.flows
  exact flows.start.resolve_left List.not_mem_nil

theorem heights_exit (verified : routine.Verified program result) {pc height : Nat} {instr : Instr}
    (here : (routine.heights program)[pc]? = some (some height))
    (found : routine.code[pc]? = some instr) {next : Nat × Nat}
    (exit : next ∈ instr.exits program routine pc height) :
    (routine.heights program)[next.1]? = some (some next.2) := by
  obtain ⟨known, flows⟩ := verified.flows
  refine (flows.closed pc height here next ?_).resolve_left List.not_mem_nil
  rwa [exitsAt, found, Option.elim_some]

theorem height_le_peak (verified : routine.Verified program result) {pc height : Nat}
    (here : (routine.heights program)[pc]? = some (some height)) : height ≤ routine.peak program := by
  obtain ⟨known, flows⟩ := verified.flows
  have bound : pc < routine.code.size := flows.size ▸ (Array.getElem?_eq_some_iff.mp here).1
  refine List.le_max?_getD_of_mem (List.mem_flatMap.mpr ⟨pc, List.mem_range.mpr bound, ?_⟩)
  rw [heightsAt, here, Array.getElem?_eq_getElem bound]
  exact List.mem_cons_self

end Routine.Verified

theorem Program.peak_le_stackBound {program : Program} {routine : Routine}
    (known : routine ∈ program.entry :: program.routines.toList) :
    routine.peak program ≤ program.stackBound :=
  List.le_max?_getD_of_mem (List.mem_map_of_mem known)

end LetChain
