import LetChain.Machine.Range
import LetChain.Proofs.Number.Whole

/-! A range between whole numbers is exact. The number of elements comes from a rounded division, and
each element is tested against the limit again. On whole numbers below `2 ^ 52` the division exceeds
the counts it should, so that the test never cuts an element off and no element is missing. -/

namespace LetChain.Range

open Number

/-- The whole number at an index from `a` towards `b`. -/
def wholeElement (a b : ℤ) (d index : Nat) : ℤ := if a ≤ b then a + index * d else a - index * d

/-- The whole numbers from `a` towards `b`, which is left out, `d` apart. -/
def wholes (a b : ℤ) (d : Nat) : List ℤ :=
  (List.range ((b - a).natAbs ⌈/⌉ d)).map (wholeElement a b d)

/-- A number is passed before the limit is reached. -/
def Before (a b n : ℤ) : Prop := if a ≤ b then n < b else b < n

variable {a b : ℤ} {d : Nat}

theorem before_wholeElement_iff (index : Nat) :
    Before a b (wholeElement a b d index) ↔ index * d < (b - a).natAbs := by
  simp only [Before, wholeElement, ← Int.natCast_mul]
  split <;> omega

theorem lt_ceilDiv_iff (positive : 0 < d) (distance index : Nat) :
    index < distance ⌈/⌉ d ↔ index * d < distance := by
  rw [← not_le, ceilDiv_le_iff_le_mul positive, not_le, Nat.mul_comm]

theorem before_wholeElement_iff_lt_length (positive : 0 < d) (index : Nat) :
    Before a b (wholeElement a b d index) ↔ index < (wholes a b d).length := by
  rw [before_wholeElement_iff, wholes, List.length_map, List.length_range, lt_ceilDiv_iff positive]

theorem wholes_eq_nil_iff (positive : 0 < d) : wholes a b d = [] ↔ a = b := by
  have first := @lt_ceilDiv_iff d positive (b - a).natAbs 0
  rw [wholes, List.map_eq_nil_iff, List.range_eq_nil]
  omega

theorem elements_eq {first limit step : Float} {ascending : Bool} (count index : Nat)
    (done : Array Value) (before : ∀ k, index ≤ k → k < index + count →
      if ascending then element first step ascending k < limit
      else limit < element first step ascending k) :
    elements first limit step ascending count index done = done.toList ++
      ((List.range' index count).map (element first step ascending)).map .number := by
  induction count generalizing index done with
  | zero => simp [elements]
  | succ count ih =>
    rw [elements, if_pos (before index le_rfl (by omega)),
      ih (index + 1) _ fun k least most => before k (by omega) (by omega)]
    simp [List.range'_succ]

section

variable {first limit step : Float} (isFirst : HasValue first a) (isLimit : HasValue limit b)
  (isStep : HasValue step (d : ℤ)) (near : |b - a| < 2 ^ 52)

include isFirst isLimit in
theorem ascending_iff : decide (first ≤ limit) = decide (a ≤ b) := by
  simp only [isFirst.le_iff isLimit, Int.cast_le]

include isFirst isStep near in
theorem hasValue_element (bound : |a| < 2 ^ 52) (positive : 0 < d) {index : Nat}
    (early : index * d < (b - a).natAbs) :
    HasValue (element first step (decide (a ≤ b)) index) (wholeElement a b d index) := by
  rw [abs_lt] at near bound
  have few : index < 2 ^ 53 := by
    have := Nat.le_mul_of_pos_right index positive
    omega
  have product : HasValue (Float.ofNat index * step) (index * d : ℤ) := by
    refine (hasValue_ofNat few).mul isStep (abs_lt.mpr ?_)
    rw [← Int.natCast_mul]
    omega
  rw [← Int.natCast_mul] at product
  simp only [element, wholeElement, decide_eq_true_eq, ← Int.natCast_mul]
  split
  case isTrue => exact isFirst.add product (abs_lt.mpr (by omega))
  case isFalse => exact isFirst.sub product (abs_lt.mpr (by omega))

include isFirst isLimit isStep near in
theorem elements_wholes (bound : |a| < 2 ^ 52) (positive : 0 < d) :
    ∃ values, elements first limit step (first ≤ limit) ((b - a).natAbs ⌈/⌉ d) 0 #[] =
        values.map .number ∧ List.Forall₂ (fun x (n : ℤ) => HasValue x n) values (wholes a b d) := by
  have early {index : Nat} (less : index < (b - a).natAbs ⌈/⌉ d) : index * d < (b - a).natAbs :=
    (lt_ceilDiv_iff positive _ _).mp less
  refine ⟨(List.range ((b - a).natAbs ⌈/⌉ d)).map (element first step (decide (a ≤ b))), ?_, ?_⟩
  · rw [ascending_iff isFirst isLimit, elements_eq _ _ _ ?_, List.range_eq_range']
    · rfl
    · intro k _ less
      have less := early (less.trans_eq (Nat.zero_add _))
      have isValue := hasValue_element isFirst isStep near bound positive less
      have before := (before_wholeElement_iff k).mpr less
      rw [Before] at before
      simp only [decide_eq_true_eq, isValue.lt_iff isLimit, isLimit.lt_iff isValue, Int.cast_lt]
      exact before
  · rw [wholes, List.forall₂_map_left_iff, List.forall₂_map_right_iff, List.forall₂_same]
    intro k member
    exact hasValue_element isFirst isStep near bound positive (early (List.mem_range.mp member))

include isFirst isLimit isStep near in
theorem generate_eq (positive : 0 < d) (small : d < 2 ^ 52) {maxLength : Nat}
    (few : maxLength < 2 ^ 53) : generate first limit step maxLength =
      if maxLength * d < (b - a).natAbs then .error (.rangeTooLarge maxLength)
      else .ok (elements first limit step (first ≤ limit) ((b - a).natAbs ⌈/⌉ d) 0 #[]) := by
  have isZero : HasValue 0 ((0 : ℕ) : ℤ) := hasValue_ofNat (by decide)
  have isDistance : HasValue (limit - first).abs ((b - a).natAbs : ℤ) := by
    rw [← Int.abs_eq_natAbs]
    exact (isLimit.sub isFirst (near.trans (by decide))).abs
  have near : (b - a).natAbs < 2 ^ 52 := by rw [abs_lt] at near; omega
  obtain ⟨quotient, isQuotient, above, exceeds⟩ := isDistance.div isStep near positive small
  have below : quotient < 2 ^ 53 := by
    have most : ¬ ((2 ^ 52 : ℕ) : ℚ) < quotient := by
      rw [exceeds]
      have := Nat.le_mul_of_pos_right (2 ^ 52) positive
      omega
    push_cast at most
    linarith
  have count : ceiling ((limit - first).abs / step) = (b - a).natAbs ⌈/⌉ d := by
    refine eq_of_forall_lt_iff fun k => ?_
    rw [lt_ceiling_iff isQuotient above below, exceeds, lt_ceilDiv_iff positive]
  have valid : (!step.isFinite || decide (step ≤ 0)) = false := by
    rw [isStep.isFinite, decide_eq_false]
    · rfl
    · rw [isStep.le_iff isZero]
      exact_mod_cast positive.not_ge
  have long : Float.ofNat maxLength < (limit - first).abs / step ↔
      maxLength * d < (b - a).natAbs := by
    rw [(hasValue_ofNat few).lt_iff isQuotient, Int.cast_natCast, exceeds]
  simp only [generate, valid, isQuotient.isFinite, count, long]
  simp

end

/-- A range of small whole numbers is too long exactly if its distance exceeds the longest, and gives
those whole numbers otherwise. -/
theorem generate_wholes {first limit step : Float} {a b : ℤ} {d maxLength : Nat}
    (isFirst : HasValue first a) (isLimit : HasValue limit b) (isStep : HasValue step (d : ℤ))
    (firstSmall : |a| < 2 ^ 52) (near : |b - a| < 2 ^ 52) (positive : 1 ≤ d)
    (stepSmall : d < 2 ^ 52) (few : maxLength < 2 ^ 53) :
    (generate first limit step maxLength = .error (.rangeTooLarge maxLength) ↔
      maxLength * d < |b - a|) ∧
    (|b - a| ≤ maxLength * d → ∃ values : List Float,
      generate first limit step maxLength = .ok (values.map .number) ∧
      List.Forall₂ (fun x (n : ℤ) => HasValue x n) values (wholes a b d) ∧
      (∀ n ∈ wholes a b d, Before a b n) ∧
      (∀ index, Before a b (wholeElement a b d index) → index < values.length) ∧
      (values = [] ↔ a = b) ∧
      values.length ≤ maxLength) := by
  have isLong : (maxLength * d : ℤ) < |b - a| ↔ maxLength * d < (b - a).natAbs := by
    rw [Int.abs_eq_natAbs]
    exact_mod_cast Iff.rfl
  have isGenerate := generate_eq isFirst isLimit isStep near positive stepSmall few
  constructor
  · rw [isLong, isGenerate]
    split
    case isTrue long => simp [long]
    case isFalse short => simp [short]
  · intro short
    have short : ¬ maxLength * d < (b - a).natAbs := by rwa [← isLong, not_lt]
    obtain ⟨values, isElements, matching⟩ :=
      elements_wholes isFirst isLimit isStep near firstSmall positive
    refine ⟨values, ?_, matching, ?_, ?_, ?_, ?_⟩
    · rw [isGenerate, if_neg short, isElements]
    · intro n member
      obtain ⟨index, less, rfl⟩ := List.mem_map.mp member
      exact (before_wholeElement_iff _).mpr ((lt_ceilDiv_iff positive _ _).mp (List.mem_range.mp less))
    · intro index before
      rw [matching.length_eq]
      exact (before_wholeElement_iff_lt_length positive index).mp before
    · rw [← wholes_eq_nil_iff positive, ← List.length_eq_zero_iff, matching.length_eq,
        List.length_eq_zero_iff]
    · rw [matching.length_eq, wholes, List.length_map, List.length_range]
      exact not_lt.mp fun long => short ((lt_ceilDiv_iff positive _ _).mp long)

/-- Downward from ten by fours there are three numbers, which is too many for a limit of two. -/
theorem generate_wholes_downward :
    generate 10 0 4 2 = .error (.rangeTooLarge 2) ∧
    ∃ values : List Float, generate 10 0 4 3 = .ok (values.map .number) ∧
      List.Forall₂ (fun x (n : ℤ) => HasValue x n) values [10, 6, 2] := by
  have isTen : HasValue 10 (10 : ℕ) := hasValue_ofNat (by decide)
  have isZero : HasValue 0 (0 : ℕ) := hasValue_ofNat (by decide)
  have isFour : HasValue 4 (4 : ℕ) := hasValue_ofNat (by decide)
  have two := @generate_wholes 10 0 4 10 0 4 2 isTen isZero isFour (by decide) (by decide) (by decide)
    (by decide) (by decide)
  have three := @generate_wholes 10 0 4 10 0 4 3 isTen isZero isFour (by decide) (by decide)
    (by decide) (by decide) (by decide)
  obtain ⟨values, isValues, matching, -⟩ := three.2 (by decide)
  exact ⟨two.1.mpr (by decide), values, isValues, matching⟩

end LetChain.Range
