import LetChain.Number.Remainder
import LetChain.Proofs.Number.Rounding

/-! Arithmetic on whole numbers is exact as long as they are small, and a rounded quotient of whole
numbers lies above exactly the whole numbers that the quotient itself lies above. -/

namespace LetChain.Number

open Float.Model Float.Model.UnpackedFloat

def Binary.value? : Binary → Option ℚ
  | .finite negative mantissa exponent =>
    some ((if negative then -1 else 1) * (mantissa * (2 : ℚ) ^ exponent))
  | _ => none

/-- The number stands for exactly this value. -/
def HasValue (x : Float) (value : ℚ) : Prop := (decode x).value? = some value

/-! ### Order -/

section

variable {mantissa mantissa' : Nat} {exponent exponent' : Int}

theorem Normal.value_lt (normal : Normal mantissa exponent) (normal' : Normal mantissa' exponent')
    (before : exponent < exponent' ∨ exponent = exponent' ∧ mantissa < mantissa') :
    mantissa * (2 : ℚ) ^ exponent < mantissa' * 2 ^ exponent' := by
  have unit : (0 : ℚ) < 2 ^ exponent := zpow_pos two_pos exponent
  rcases before with less | ⟨rfl, less⟩
  · have leading : hiddenBit ≤ mantissa' := by
      rcases normal'.leading with leading | least
      · exact leading
      · exact absurd less (by have := normal.least; omega)
    calc mantissa * (2 : ℚ) ^ exponent
        < (2 * hiddenBit : ℕ) * 2 ^ exponent :=
          mul_lt_mul_of_pos_right (by exact_mod_cast normal.mantissa_lt) unit
      _ = hiddenBit * 2 ^ (exponent + 1) := by
          rw [zpow_add_one₀ two_ne_zero]
          push_cast
          ring
      _ ≤ hiddenBit * 2 ^ exponent' := by
          gcongr
          · exact one_le_two
          · omega
      _ ≤ mantissa' * 2 ^ exponent' := by
          have : (0 : ℚ) < 2 ^ exponent' := zpow_pos two_pos exponent'
          gcongr
  · exact mul_lt_mul_of_pos_right (by exact_mod_cast less) unit

theorem Normal.compare_eq (normal : Normal mantissa exponent)
    (normal' : Normal mantissa' exponent') :
    (compare exponent exponent').then (compare mantissa mantissa') =
      cmp (mantissa * (2 : ℚ) ^ exponent) (mantissa' * 2 ^ exponent') := by
  have cases : (exponent < exponent' ∨ exponent = exponent' ∧ mantissa < mantissa') ∨
      (exponent = exponent' ∧ mantissa = mantissa') ∨
      (exponent' < exponent ∨ exponent' = exponent ∧ mantissa' < mantissa) := by omega
  rcases cases with before | ⟨rfl, rfl⟩ | after
  · rw [compare_then_lt.mpr before, (cmp_eq_lt_iff _ _).mpr (normal.value_lt normal' before)]
  · rw [Int.compare_eq_eq.mpr rfl, Nat.compare_eq_eq.mpr rfl, cmp_self_eq_eq]
    rfl
  · rw [(cmp_eq_gt_iff _ _).mpr (normal'.value_lt normal after), Ordering.then_eq_gt,
      Int.compare_eq_gt, Int.compare_eq_eq, Nat.compare_eq_gt]
    omega

end

theorem hasValue_iff {x : Float} {value : ℚ} : HasValue x value ↔
    ∃ negative mantissa exponent, decode x = .finite negative mantissa exponent ∧
      (if negative then -1 else 1) * (mantissa * (2 : ℚ) ^ exponent) = value := by
  unfold HasValue
  cases decode x with
  | finite negative mantissa exponent => simp [Binary.value?]
  | _ => simp [Binary.value?]

theorem compare_eq_cmp {x y : Float} {a b : ℚ} (isA : HasValue x a) (isB : HasValue y b) :
    (decode x).unpacked.compare (decode y).unpacked = some (cmp a b) := by
  obtain ⟨negative, mantissa, exponent, found, rfl⟩ := hasValue_iff.mp isA
  obtain ⟨negative', mantissa', exponent', found', rfl⟩ := hasValue_iff.mp isB
  have same := (normal_of_finite found).compare_eq (normal_of_finite found')
  have unit : (0 : ℚ) < 2 ^ exponent := zpow_pos two_pos exponent
  have unit' : (0 : ℚ) < 2 ^ exponent' := zpow_pos two_pos exponent'
  rw [found, found']
  rcases Nat.eq_zero_or_pos mantissa with rfl | positive <;>
    rcases Nat.eq_zero_or_pos mantissa' with rfl | positive'
  · simp [Binary.unpacked, UnpackedFloat.compare]
  · have above : (0 : ℚ) < mantissa' * 2 ^ exponent' := by positivity
    cases negative' <;>
      simp [Binary.unpacked, UnpackedFloat.compare, sign, positive', cmp, cmpUsing, above, above.le]
  · have above : (0 : ℚ) < mantissa * 2 ^ exponent := by positivity
    cases negative <;>
      simp [Binary.unpacked, UnpackedFloat.compare, sign, positive, cmp, cmpUsing, above, above.le]
  · have above : (0 : ℚ) < mantissa * 2 ^ exponent := by positivity
    have above' : (0 : ℚ) < mantissa' * 2 ^ exponent' := by positivity
    have apart : -(mantissa * (2 : ℚ) ^ exponent) < mantissa' * 2 ^ exponent' := by linarith
    have apart' : -(mantissa' * (2 : ℚ) ^ exponent') < mantissa * 2 ^ exponent := by linarith
    cases negative <;> cases negative' <;>
      simp only [Binary.unpacked, positive, positive', dite_true, sign, if_true, Bool.false_eq_true,
        if_false, UnpackedFloat.compare, one_mul, neg_one_mul, Option.some.injEq]
    · exact same
    · exact ((cmp_eq_gt_iff _ _).mpr apart').symm
    · exact ((cmp_eq_lt_iff _ _).mpr apart).symm
    · rw [same, cmp_swap]
      simp only [cmp, cmpUsing, neg_lt_neg_iff]

theorem HasValue.lt_iff {x y : Float} {a b : ℚ} (isA : HasValue x a) (isB : HasValue y b) :
    x < y ↔ a < b := by
  rw [lt_iff_compare, compare_eq_cmp isA isB, Option.some.injEq, cmp_eq_lt_iff]

theorem HasValue.le_iff {x y : Float} {a b : ℚ} (isA : HasValue x a) (isB : HasValue y b) :
    x ≤ y ↔ a ≤ b := by
  have compared := compare_eq_cmp isA isB
  rw [← unpack_eq, ← unpack_eq] at compared
  have isLE : x ≤ y ↔ (cmp a b).isLE := by
    simp [LE.le, Float.le, Float.Model.le, UnpackedFloat.le, compared]
  rw [isLE]
  rcases lt_trichotomy a b with less | rfl | greater
  · simp [(cmp_eq_lt_iff a b).mpr less, less.le]
  · simp [cmp_self_eq_eq]
  · simp [(cmp_eq_gt_iff a b).mpr greater, greater]

theorem HasValue.isFinite {x : Float} {value : ℚ} (isValue : HasValue x value) :
    x.isFinite = true := by
  obtain ⟨negative, mantissa, exponent, found, -⟩ := hasValue_iff.mp isValue
  have unpacked : x.toModel.unpack = _ := unpack_eq x
  rw [found, Binary.unpacked] at unpacked
  rw [Float.isFinite, Float.Model.isFinite, unpacked]
  split <;> rfl

/-! ### Whole numbers -/

inductive Whole : UnpackedFloat → ℤ → Prop
  | zero (sign : Sign) : Whole (.zero sign) 0
  | finite {sign : Sign} {mantissa : Nat} {exponent n : ℤ} {positive : 0 < mantissa}
      (lower : hiddenBit ≤ mantissa) (upper : mantissa < 2 * hiddenBit)
      (least : leastExponent ≤ exponent) (greatest : exponent ≤ 971)
      (value : (sign.apply mantissa : ℤ) * (2 : ℚ) ^ exponent = n) :
      Whole (.finite sign mantissa exponent positive) n

theorem Whole.hasValue {unpacked : UnpackedFloat} {n : ℤ} (whole : Whole unpacked n) :
    HasValue (Float.ofModel (Float.Model.pack unpacked)) n := by
  cases whole with
  | zero sign =>
    rw [hasValue_iff]
    cases sign with
    | positive => exact ⟨false, 0, leastExponent, rfl, by simp⟩
    | negative => exact ⟨true, 0, leastExponent, rfl, by simp⟩
  | @finite sign mantissa exponent _ positive lower upper least greatest value =>
    rw [hasValue_iff]
    cases sign with
    | positive =>
      refine ⟨false, _, _, decode_pack positive false lower upper least greatest, ?_⟩
      simpa [Sign.apply] using value
    | negative =>
      refine ⟨true, _, _, decode_pack positive true lower upper least greatest, ?_⟩
      simpa [Sign.apply] using value

theorem two_zpow_toNat {exponent : ℤ} (whole : 0 ≤ exponent) :
    ((2 ^ exponent.toNat : ℕ) : ℚ) = 2 ^ exponent := by
  obtain ⟨power, rfl⟩ := Int.eq_ofNat_of_zero_le whole
  simp

theorem add_lt_of_mul_lt {mantissa low : Nat} {exponent high : ℤ} (least : 2 ^ low ≤ mantissa)
    (below : mantissa * (2 : ℚ) ^ exponent < 2 ^ high) : low + exponent < high := by
  refine (zpow_lt_zpow_iff_right₀ (one_lt_two : (1 : ℚ) < 2)).mp ?_
  calc (2 : ℚ) ^ (low + exponent) = (2 ^ low : ℕ) * 2 ^ exponent := by
        rw [zpow_add₀ two_ne_zero]
        norm_cast
    _ ≤ mantissa * 2 ^ exponent := by gcongr
    _ < 2 ^ high := below

theorem lt_add_of_le_mul {mantissa high : Nat} {exponent : ℤ} (most : mantissa < 2 ^ high)
    (above : 1 ≤ mantissa * (2 : ℚ) ^ exponent) : 0 < high + exponent := by
  refine (zpow_lt_zpow_iff_right₀ (one_lt_two : (1 : ℚ) < 2)).mp ?_
  calc (2 : ℚ) ^ (0 : ℤ) = 1 := zpow_zero 2
    _ ≤ mantissa * 2 ^ exponent := above
    _ < (2 ^ high : ℕ) * 2 ^ exponent := by gcongr
    _ = 2 ^ (high + exponent) := by
        rw [zpow_add₀ two_ne_zero]
        norm_cast

theorem abs_apply (sign : Sign) (mantissa : Nat) (exponent : ℤ) :
    |(sign.apply mantissa : ℤ) * (2 : ℚ) ^ exponent| = mantissa * 2 ^ exponent := by
  rw [abs_mul, abs_of_pos (zpow_pos two_pos exponent : (0 : ℚ) < 2 ^ exponent)]
  cases sign <;> simp [Sign.apply]

theorem HasValue.whole {x : Float} {n : ℤ} (isN : HasValue x n) : Whole x.toModel.unpack n := by
  obtain ⟨negative, mantissa, exponent, found, value⟩ := hasValue_iff.mp isN
  have normal := normal_of_finite found
  rw [unpack_eq, found, Binary.unpacked]
  split
  case isFalse isZero =>
    obtain rfl : mantissa = 0 := by omega
    obtain rfl : n = 0 := by simpa using value.symm
    exact .zero _
  case isTrue positive =>
    have signed : ((sign negative).apply mantissa : ℤ) * (2 : ℚ) ^ exponent = n := by
      rw [← value]
      cases negative <;> simp [sign, Sign.apply]
    rcases normal.leading with leading | rfl
    · exact .finite leading normal.mantissa_lt normal.least normal.greatest signed
    · -- With the least exponent a number is between zero and one.
      have size := abs_apply (sign negative) mantissa leastExponent
      rw [signed, ← Int.cast_abs] at size
      have small : (mantissa : ℚ) * 2 ^ leastExponent < 1 := by
        have below : (mantissa : ℚ) < 2 ^ (53 : ℤ) := by exact_mod_cast normal.mantissa_lt
        calc (mantissa : ℚ) * 2 ^ leastExponent
            < 2 ^ (53 : ℤ) * 2 ^ leastExponent := by gcongr
          _ = 2 ^ (-1021 : ℤ) := by rw [← zpow_add₀ two_ne_zero]; rfl
          _ ≤ 2 ^ (0 : ℤ) := by gcongr <;> norm_num
      have above : (0 : ℚ) < mantissa * 2 ^ leastExponent := by positivity
      rw [← size] at small above
      have small : |n| < 1 := by exact_mod_cast small
      have above : 0 < |n| := by exact_mod_cast above
      omega

/-! ### Exact operations -/

section

variable {mantissa n : Nat} {exponent : ℤ}

theorem whole_roundWithAccuracy (lower : hiddenBit ≤ mantissa) (isPositive : 0 < n)
    (small : n < 2 ^ 53) (isN : mantissa * (2 : ℚ) ^ exponent = n) (sign : Sign) :
    Whole (roundWithAccuracy Format.binary64 sign mantissa exponent .exact) (sign.apply n) := by
  have positive : mantissa ≠ 0 := by simp only [hiddenBit] at lower; omega
  obtain ⟨shift, size⟩ : ∃ shift, mantissa.log2 = 52 + shift := by
    have : 52 ≤ mantissa.log2 := (Nat.le_log2 positive).mpr lower
    exact ⟨mantissa.log2 - 52, by omega⟩
  have least := Nat.log2_self_le positive
  have most := @Nat.lt_log2_self mantissa
  rw [size] at least most
  have room : exponent + shift ≤ 0 := by
    have below : mantissa * (2 : ℚ) ^ exponent < 2 ^ (53 : ℤ) := by
      rw [isN]
      exact_mod_cast small
    have := add_lt_of_mul_lt least below
    omega
  obtain ⟨zeros, isZeros⟩ : ∃ zeros : Nat, exponent + shift = -zeros :=
    ⟨(-(exponent + shift)).toNat, by omega⟩
  have isMantissa : mantissa = n * 2 ^ zeros * 2 ^ shift := by
    have : (mantissa : ℚ) = n * 2 ^ zeros * 2 ^ shift := by
      rw [← isN, ← zpow_natCast, ← zpow_natCast, mul_assoc, mul_assoc, ← zpow_add₀ two_ne_zero,
        ← zpow_add₀ two_ne_zero, show exponent + (zeros + shift) = 0 by omega, zpow_zero, mul_one]
    exact_mod_cast this
  have unit : 0 < 2 ^ shift := Nat.two_pow_pos shift
  have lower : hiddenBit ≤ n * 2 ^ zeros := by
    rw [isMantissa, Nat.pow_add] at least
    exact Nat.le_of_mul_le_mul_right least unit
  have upper : n * 2 ^ zeros < 2 * hiddenBit := by
    rw [isMantissa, show 52 + shift + 1 = 53 + shift by omega, Nat.pow_add] at most
    exact Nat.lt_of_mul_lt_mul_right most
  have few : zeros < 53 := by
    refine (Nat.pow_lt_pow_iff_right (by decide : 1 < 2)).mp (Nat.lt_of_le_of_lt ?_ upper)
    exact Nat.le_mul_of_pos_left _ isPositive
  have least : leastExponent ≤ exponent + shift := by simp only [leastExponent]; omega
  rw [isMantissa, roundWithAccuracy_exact lower upper least]
  refine .finite lower upper least (by omega) ?_
  rw [isZeros, zpow_neg, zpow_natCast]
  cases sign <;> simp [Sign.apply]

theorem whole_round (isPositive : 0 < n) (small : n < 2 ^ 53)
    (isN : mantissa * (2 : ℚ) ^ exponent = n) (sign : Sign) :
    Whole (round Format.binary64 sign mantissa exponent) (sign.apply n) := by
  have positive : mantissa ≠ 0 := by
    rintro rfl
    simp only [Nat.cast_zero, zero_mul] at isN
    exact isPositive.ne (by exact_mod_cast isN)
  have large : 0 < ((mantissa.log2 + 1 : ℕ) : ℤ) + exponent := by
    refine lt_add_of_le_mul Nat.lt_log2_self ?_
    rw [isN]
    exact_mod_cast isPositive
  have target : Format.binary64.targetExponent (totalExponent mantissa exponent) =
      exponent + mantissa.log2 - 52 := by
    simp only [Format.targetExponent, totalExponent, Format.mantissaBits, Format.minExponent]
    omega
  have amount : (exponent - (exponent + mantissa.log2 - 52)).toNat = 52 - mantissa.log2 := by omega
  simp only [UnpackedFloat.round, target, decreaseExponent, amount, Nat.shiftLeft_eq]
  refine whole_roundWithAccuracy ?_ isPositive small ?_ sign
  · refine Nat.le_trans ?_ (Nat.log2_self_le (Nat.mul_ne_zero positive (Nat.two_pow_pos _).ne'))
    rw [log2_mul_two_pow positive, show hiddenBit = 2 ^ 52 from rfl]
    exact Nat.pow_le_pow_right (by decide) (by omega)
  · rw [← isN, Nat.cast_mul, Nat.cast_pow, Nat.cast_ofNat, mul_assoc, ← zpow_natCast,
      ← zpow_add₀ two_ne_zero, show ((52 - mantissa.log2 : Nat) : ℤ) +
        (exponent - (52 - mantissa.log2 : Nat)) = exponent by omega]

end

theorem whole_normalize {mantissa exponent n : ℤ} (small : |n| < 2 ^ 53)
    (isN : mantissa * (2 : ℚ) ^ exponent = n) (zeroSign : Sign) :
    Whole (normalize Format.binary64 mantissa exponent zeroSign) n := by
  have unit : (0 : ℚ) < 2 ^ exponent := zpow_pos two_pos exponent
  rw [UnpackedFloat.normalize]
  rcases lt_trichotomy mantissa 0 with negative | rfl | positive
  · have isNegative : n < 0 := by
      have : (n : ℚ) < 0 := isN ▸ mul_neg_of_neg_of_pos (by exact_mod_cast negative) unit
      exact_mod_cast this
    rw [abs_of_neg isNegative] at small
    rw [Int.compare_eq_lt.mpr negative]
    obtain ⟨size, isSize⟩ : ∃ size : Nat, -n = size := ⟨(-n).toNat, by omega⟩
    have whole := @whole_round (-mantissa).toNat size exponent (by omega) (by omega) (by
      rw [← Int.cast_natCast (-mantissa).toNat, Int.toNat_of_nonneg (by omega)]
      push_cast
      rw [neg_mul, isN]
      exact_mod_cast isSize) .negative
    rwa [Sign.apply, ← isSize, neg_neg] at whole
  · obtain rfl : n = 0 := by simpa using isN.symm
    exact .zero zeroSign
  · have isPositive : 0 < n := by
      have : (0 : ℚ) < n := isN ▸ mul_pos (by exact_mod_cast positive) unit
      exact_mod_cast this
    rw [abs_of_pos isPositive] at small
    rw [Int.compare_eq_gt.mpr positive]
    obtain ⟨size, isSize⟩ : ∃ size : Nat, n = size := ⟨n.toNat, by omega⟩
    have whole := @whole_round mantissa.toNat size exponent (by omega) (by omega) (by
      rw [← Int.cast_natCast mantissa.toNat, Int.toNat_of_nonneg (by omega), isN]
      exact_mod_cast isSize) .positive
    rwa [Sign.apply, ← isSize] at whole

namespace Whole

variable {u v : UnpackedFloat} {a b : ℤ}

theorem apply_neg (sign : Sign) (n : ℤ) : (-sign).apply n = -sign.apply n := by
  cases sign with
  | positive => rfl
  | negative => exact (neg_neg n).symm

theorem neg (whole : Whole u a) : Whole u.neg (-a) := by
  cases whole with
  | zero sign => exact .zero _
  | @finite sign mantissa exponent _ _ lower upper least greatest value =>
    refine .finite lower upper least greatest ?_
    rw [Int.cast_neg, ← value, apply_neg, Int.cast_neg, neg_mul]

theorem abs (whole : Whole u a) : Whole u.abs |a| := by
  cases whole with
  | zero sign => exact .zero _
  | @finite sign mantissa exponent _ _ lower upper least greatest value =>
    refine .finite lower upper least greatest ?_
    rw [Int.cast_abs, ← value, abs_apply]
    simp [Sign.apply]

theorem aligned (sign : Sign) (mantissa : Nat) {exponent target : ℤ} (le : target ≤ exponent) :
    (sign.apply (mantissa <<< (exponent - target).toNat : ℕ) : ℤ) * (2 : ℚ) ^ target =
      (sign.apply mantissa : ℤ) * 2 ^ exponent := by
  have shift : ((mantissa <<< (exponent - target).toNat : ℕ) : ℚ) * 2 ^ target =
      mantissa * 2 ^ exponent := by
    rw [Nat.shiftLeft_eq, Nat.cast_mul, two_zpow_toNat (by omega), mul_assoc,
      ← zpow_add₀ two_ne_zero, sub_add_cancel]
  cases sign with
  | positive => exact shift
  | negative => rw [Sign.apply, Sign.apply, Int.cast_neg, Int.cast_neg, neg_mul, neg_mul,
      Int.cast_natCast, Int.cast_natCast, shift]

theorem add (left : Whole u a) (right : Whole v b) (small : |a + b| < 2 ^ 53) :
    Whole (UnpackedFloat.add Format.binary64 u v) (a + b) := by
  cases left with
  | zero sign =>
    cases right with
    | zero sign' => cases sign <;> cases sign' <;> exact .zero _
    | finite lower upper least greatest value =>
      rw [zero_add]
      exact .finite lower upper least greatest value
  | finite lower upper least greatest value =>
    cases right with
    | zero sign' =>
      rw [add_zero]
      exact .finite lower upper least greatest value
    | finite _ _ _ _ value' =>
      refine whole_normalize small ?_ _
      rw [Int.cast_add, add_mul, aligned _ _ (min_le_left _ _), aligned _ _ (min_le_right _ _),
        value, value', Int.cast_add]

theorem sub_eq (u v : UnpackedFloat) :
    UnpackedFloat.sub Format.binary64 u v = UnpackedFloat.add Format.binary64 u v.neg := by
  cases u <;> cases v <;> try rfl
  simp only [UnpackedFloat.sub, UnpackedFloat.add, UnpackedFloat.neg, apply_neg, sub_eq_add_neg]

theorem apply_mul (sign sign' : Sign) (m n : ℤ) :
    (sign * sign').apply (m * n) = sign.apply m * sign'.apply n := by
  cases sign <;> cases sign'
  · exact (neg_mul_neg m n).symm
  · exact (neg_mul m n).symm
  · exact (mul_neg m n).symm
  · rfl

theorem mul (left : Whole u a) (right : Whole v b) (small : |a * b| < 2 ^ 53) :
    Whole (UnpackedFloat.mul Format.binary64 u v) (a * b) := by
  cases left with
  | zero sign =>
    rw [zero_mul]
    cases right <;> exact .zero _
  | @finite sign mantissa exponent _ _ lower _ _ _ value =>
    cases right with
    | zero sign' =>
      rw [mul_zero]
      exact .zero _
    | @finite sign' mantissa' exponent' _ positive' _ _ _ _ value' =>
      have product : ((sign * sign').apply (mantissa * mantissa' : ℕ) : ℤ) *
          (2 : ℚ) ^ (exponent + exponent') = (a * b : ℤ) := by
        rw [Nat.cast_mul, apply_mul, Int.cast_mul, Int.cast_mul, ← value, ← value',
          zpow_add₀ two_ne_zero]
        ring
      have size := abs_apply (sign * sign') (mantissa * mantissa') (exponent + exponent')
      rw [product, ← Int.cast_abs] at size
      obtain ⟨n, isN⟩ := Int.eq_ofNat_of_zero_le (abs_nonneg (a * b))
      rw [isN, Int.cast_natCast] at size
      have large : hiddenBit ≤ mantissa * mantissa' :=
        Nat.le_trans lower (Nat.le_mul_of_pos_right mantissa positive')
      have isPositive : 0 < n := by
        have : (0 : ℚ) < n := by
          rw [size]
          positivity
        exact_mod_cast this
      have whole := whole_roundWithAccuracy large isPositive (by omega) size.symm (sign * sign')
      have signed : (sign * sign').apply n = a * b := by
        have : (((sign * sign').apply n : ℤ) : ℚ) = (a * b : ℤ) := by
          rw [← product]
          cases sign * sign' <;> simp [Sign.apply, size]
        exact_mod_cast this
      rwa [signed] at whole

end Whole

section

variable {x y : Float} {a b : ℤ}

theorem HasValue.add (isA : HasValue x a) (isB : HasValue y b) (small : |a + b| < 2 ^ 53) :
    HasValue (x + y) (a + b : ℤ) := (isA.whole.add isB.whole small).hasValue

theorem HasValue.sub (isA : HasValue x a) (isB : HasValue y b) (small : |a - b| < 2 ^ 53) :
    HasValue (x - y) (a - b : ℤ) := by
  rw [sub_eq_add_neg] at small ⊢
  have whole := isA.whole.add isB.whole.neg small
  rw [← Whole.sub_eq] at whole
  exact whole.hasValue

theorem HasValue.mul (isA : HasValue x a) (isB : HasValue y b) (small : |a * b| < 2 ^ 53) :
    HasValue (x * y) (a * b : ℤ) := (isA.whole.mul isB.whole small).hasValue

theorem HasValue.abs (isA : HasValue x a) : HasValue x.abs (|a| : ℤ) := isA.whole.abs.hasValue

theorem hasValue_toFloat {n : UInt64} (small : n.toNat < 2 ^ 53) :
    HasValue n.toFloat (n.toNat : ℤ) := by
  have small : |(n.toNat : ℤ)| < 2 ^ 53 := by
    rw [abs_of_nonneg (by omega)]
    exact_mod_cast small
  exact (whole_normalize small (by simp) .positive).hasValue

theorem hasValue_ofNat {n : Nat} (small : n < 2 ^ 53) : HasValue (Float.ofNat n) (n : ℤ) := by
  have whole : n.toUInt64.toNat = n := by
    rw [Nat.toUInt64, UInt64.toNat_ofNat']
    omega
  have isProduct : Float.ofNat n = n.toUInt64.toFloat * Float.ofBits 0x3FF0000000000000 := by
    rw [Float.ofNat]
    exact dif_pos ⟨small, Nat.zero_le _⟩
  have isOne : HasValue (Float.ofBits 0x3FF0000000000000) (1 : ℤ) :=
    hasValue_iff.mpr ⟨false, hiddenBit, -52, rfl, by norm_num [hiddenBit]⟩
  have product := (hasValue_toFloat (by rwa [whole])).mul isOne (by
    rw [mul_one, whole, abs_of_nonneg (by omega)]
    exact_mod_cast small)
  rwa [mul_one, whole, ← isProduct] at product

end

/-! ### Quotients -/

section

variable {numerator denominator shift : Nat}

def roundedQuotient (numerator denominator shift : Nat) : Nat :=
  (ExtendedMantissa.ofMantissaAndAccuracy (numerator / denominator)
    (accuracyOfFraction (numerator % denominator) denominator) >>> shift).roundedMantissa

theorem lt_roundedQuotient (positive : 0 < denominator) :
    numerator < (roundedQuotient numerator denominator shift + 1) * (2 ^ shift * denominator) := by
  have bounds := (roundedMantissa_bounds
    (ExtendedMantissa.ofMantissaAndAccuracy (numerator / denominator)
      (accuracyOfFraction (numerator % denominator) denominator) >>> shift)).1
  rw [extended_mantissa, Nat.div_div_eq_div_mul, Nat.mul_comm denominator] at bounds
  have unit : 0 < 2 ^ shift * denominator := Nat.mul_pos (Nat.two_pow_pos shift) positive
  calc numerator < (numerator / (2 ^ shift * denominator) + 1) * (2 ^ shift * denominator) := by
        rw [Nat.add_mul, Nat.one_mul]
        exact Nat.lt_div_mul_add unit
    _ ≤ _ := Nat.mul_le_mul_right _ (Nat.succ_le_succ bounds)

theorem roundedQuotient_le {bound : Nat} (positive : 0 < denominator)
    (le : numerator ≤ bound * (2 ^ shift * denominator)) :
    roundedQuotient numerator denominator shift ≤ bound := by
  have most := (roundedMantissa_bounds
    (ExtendedMantissa.ofMantissaAndAccuracy (numerator / denominator)
      (accuracyOfFraction (numerator % denominator) denominator) >>> shift)).2
  rw [extended_mantissa] at most
  have quotient : numerator / denominator ≤ bound * 2 ^ shift := by
    rw [Nat.div_le_iff_le_mul_add_pred positive]
    rw [← Nat.mul_assoc] at le
    rw [Nat.mul_comm denominator]
    omega
  have floor : numerator / denominator / 2 ^ shift ≤ bound := by
    rw [Nat.div_le_iff_le_mul_add_pred (Nat.two_pow_pos shift), Nat.mul_comm]
    omega
  rcases Nat.lt_or_eq_of_le floor with less | same
  · exact Nat.le_trans most less
  · -- The quotient is the bound itself, so nothing was dropped.
    have exact : numerator / denominator = bound * 2 ^ shift := by
      refine Nat.le_antisymm quotient ?_
      rw [← same]
      exact Nat.div_mul_le_self _ _
    have noRest : numerator % denominator = 0 := by
      have split := Nat.div_add_mod numerator denominator
      rw [exact] at split
      have : denominator * (bound * 2 ^ shift) = bound * (2 ^ shift * denominator) := by ring
      omega
    have rounded := shifted_roundedMantissa (bound * 2 ^ shift) shift
    rw [halfEven_mul] at rounded
    rw [roundedQuotient, noRest, exact]
    exact rounded.le

end

theorem value_of_carry {rounded final : Nat} {exponent place : ℤ}
    (bounds : hiddenBit ≤ rounded ∧ rounded ≤ 2 * hiddenBit) (lower : hiddenBit ≤ final)
    (upper : final < 2 * hiddenBit) (same : place * hiddenBit + final = exponent * hiddenBit + rounded) :
    final * (2 : ℚ) ^ place = rounded * 2 ^ exponent := by
  rcases Nat.lt_or_eq_of_le bounds.2 with less | rfl
  · obtain ⟨rfl, rfl⟩ : place = exponent ∧ final = rounded := by
      simp only [hiddenBit] at *
      omega
    rfl
  · obtain ⟨rfl, rfl⟩ : place = exponent + 1 ∧ final = hiddenBit := by
      simp only [hiddenBit] at *
      omega
    rw [zpow_add_one₀ two_ne_zero]
    push_cast
    ring

theorem Whole.of_pos {u : UnpackedFloat} {n : Nat} (whole : Whole u n) (isPositive : 0 < n)
    (small : n < 2 ^ 52) : ∃ mantissa exponent positive,
      u = .finite .positive mantissa exponent positive ∧
      hiddenBit ≤ mantissa ∧ mantissa < 2 * hiddenBit ∧ -53 < exponent ∧ exponent < 0 ∧
      mantissa * (2 : ℚ) ^ exponent = n := by
  generalize isN : (n : ℤ) = n' at whole
  cases whole with
  | zero sign => exact absurd isN (by omega)
  | @finite sign mantissa exponent _ positive lower upper least greatest value =>
    subst isN
    have unit : (0 : ℚ) < 2 ^ exponent := zpow_pos two_pos exponent
    cases sign with
    | negative =>
      have above : (0 : ℚ) < n := by exact_mod_cast isPositive
      have below : -(mantissa * (2 : ℚ) ^ exponent) < 0 := by
        rw [neg_lt_zero]
        positivity
      simp only [Sign.apply, Int.cast_neg, Int.cast_natCast, neg_mul] at value
      exact absurd (value ▸ below) above.not_gt
    | positive =>
      simp only [Sign.apply, Int.cast_natCast] at value
      refine ⟨mantissa, exponent, positive, rfl, lower, upper, ?_, ?_, value⟩
      · have above : 1 ≤ mantissa * (2 : ℚ) ^ exponent := by
          rw [value]
          exact_mod_cast isPositive
        have upper : mantissa < 2 ^ 53 := upper
        have := lt_add_of_le_mul upper above
        omega
      · have below : mantissa * (2 : ℚ) ^ exponent < 2 ^ (52 : ℤ) := by
          rw [value]
          exact_mod_cast small
        have lower : 2 ^ 52 ≤ mantissa := lower
        have := add_lt_of_mul_lt lower below
        omega

theorem div_finite {mantissa mantissa' : Nat} {exponent exponent' : ℤ} {positive : 0 < mantissa}
    {positive' : 0 < mantissa'} (lower : hiddenBit ≤ mantissa) (upper : mantissa < 2 * hiddenBit)
    (lower' : hiddenBit ≤ mantissa') (upper' : mantissa' < 2 * hiddenBit)
    (least : -53 < exponent) (greatest : exponent < 0) (least' : -53 < exponent')
    (greatest' : exponent' < 0) :
    ∃ shift : Nat, shift ≤ 1 ∧ hiddenBit * (2 ^ shift * mantissa') ≤ mantissa * 2 ^ 53 ∧
      HasValue (Float.ofModel (Float.Model.pack (UnpackedFloat.div Format.binary64
          (.finite .positive mantissa exponent positive)
          (.finite .positive mantissa' exponent' positive'))))
        (roundedQuotient (mantissa * 2 ^ 53) mantissa' shift *
          2 ^ (exponent - exponent' - 53 + shift)) := by
  have log {m : Nat} (lower : hiddenBit ≤ m) (upper : m < 2 * hiddenBit) : m.log2 = 52 :=
    (Nat.log2_eq_iff (by simp only [hiddenBit] at lower; omega)).mpr ⟨lower, upper⟩
  have core : divCore Format.binary64 mantissa exponent mantissa' exponent' =
      (mantissa * 2 ^ 53 / mantissa', exponent - exponent' - 53,
        accuracyOfFraction (mantissa * 2 ^ 53 % mantissa') mantissa') := by
    have target : min (exponent - exponent') (Format.binary64.targetExponent
        (totalExponent mantissa exponent - totalExponent mantissa' exponent')) =
        exponent - exponent' - 53 := by
      simp only [Format.targetExponent, totalExponent, Format.mantissaBits, Format.minExponent,
        log lower upper, log lower' upper']
      omega
    have amount : (exponent - exponent' - (exponent - exponent' - 53)).toNat = 53 := by omega
    simp only [divCore, target, amount, Nat.shiftLeft_eq]
  have large : 2 ^ 52 ≤ mantissa * 2 ^ 53 / mantissa' := by
    rw [Nat.le_div_iff_mul_le positive']
    simp only [hiddenBit] at *
    omega
  have few : mantissa * 2 ^ 53 / mantissa' < 2 ^ 54 := by
    rw [Nat.div_lt_iff_lt_mul positive']
    simp only [hiddenBit] at *
    omega
  have nonzero : mantissa * 2 ^ 53 / mantissa' ≠ 0 := by omega
  obtain ⟨shift, size⟩ : ∃ shift, (mantissa * 2 ^ 53 / mantissa').log2 = 52 + shift := by
    have := (Nat.le_log2 nonzero).mpr large
    exact ⟨(mantissa * 2 ^ 53 / mantissa').log2 - 52, by omega⟩
  have atMost : shift ≤ 1 := by
    have := (Nat.log2_lt nonzero).mpr few
    omega
  have enough := Nat.log2_self_le nonzero
  rw [size, Nat.le_div_iff_mul_le positive'] at enough
  refine ⟨shift, atMost, ?_, ?_⟩
  · rwa [← Nat.mul_assoc, show hiddenBit = 2 ^ 52 from rfl, ← Nat.pow_add]
  have least : leastExponent ≤ exponent - exponent' - 53 + shift := by
    simp only [leastExponent]
    omega
  obtain ⟨final, place, isPositive, isFinal, lowest, highest, leastPlace, same⟩ :=
    roundWithAccuracy_eq size least .positive
      (accuracyOfFraction (mantissa * 2 ^ 53 % mantissa') mantissa')
  have bounds := extended_bounds size (accuracyOfFraction (mantissa * 2 ^ 53 % mantissa') mantissa')
  have rounded : UnpackedFloat.div Format.binary64 (.finite .positive mantissa exponent positive)
      (.finite .positive mantissa' exponent' positive') =
        .finite .positive final place isPositive := by
    simp only [UnpackedFloat.div, core]
    exact isFinal
  rw [rounded, hasValue_iff]
  refine ⟨false, final, place, decode_pack isPositive false lowest highest leastPlace ?_, ?_⟩
  · simp only [hiddenBit] at *
    omega
  · rw [if_neg Bool.false_ne_true, one_mul]
    exact value_of_carry bounds lowest highest same

section

variable {numerator denominator shift a d : Nat} {unit : ℚ}

theorem lt_roundedQuotient_mul {k : Nat} (positive : 0 < denominator) (isPositive : 0 < d)
    (above : 0 < unit) (small : a < 2 ^ 52)
    (full : hiddenBit * (2 ^ shift * denominator) ≤ numerator)
    (same : a * (2 ^ shift * denominator : ℕ) = d * numerator * unit) (less : k * d < a) :
    (k : ℚ) < roundedQuotient numerator denominator shift * unit := by
  have next := @lt_roundedQuotient numerator denominator shift positive
  generalize roundedQuotient numerator denominator shift = rounded at next ⊢
  have weight : 0 < 2 ^ shift * denominator := Nat.mul_pos (Nat.two_pow_pos shift) positive
  generalize 2 ^ shift * denominator = width at *
  have weight : (0 : ℚ) < width := by exact_mod_cast weight
  have isPositive : (0 : ℚ) < d := by exact_mod_cast isPositive
  have less : (k : ℚ) * d + 1 ≤ a := by exact_mod_cast less
  have small : (a : ℚ) < hiddenBit := by exact_mod_cast small
  have next : (numerator : ℚ) < (rounded + 1) * width := by exact_mod_cast next
  have full : (hiddenBit : ℚ) * width ≤ numerator := by exact_mod_cast full
  have within : a < (rounded + 1) * unit * d := by
    refine lt_of_mul_lt_mul_right ?_ weight.le
    calc (a : ℚ) * width = numerator * (d * unit) := by rw [same]; ring
      _ < (rounded + 1) * width * (d * unit) := by gcongr
      _ = (rounded + 1) * unit * d * width := by ring
  have fine : unit * d < 1 := by
    have : hiddenBit * (unit * d) < hiddenBit * 1 := by
      refine lt_of_le_of_lt (le_of_mul_le_mul_right ?_ weight) (small.trans_eq (mul_one _).symm)
      calc hiddenBit * (unit * d) * width = hiddenBit * width * (d * unit) := by ring
        _ ≤ numerator * (d * unit) := by gcongr
        _ = a * width := by rw [same]; ring
    exact lt_of_mul_lt_mul_left this (by positivity)
  refine lt_of_mul_lt_mul_right ?_ isPositive.le
  linarith

theorem roundedQuotient_mul_le {k zeros : Nat} (positive : 0 < denominator) (isPositive : 0 < d)
    (isUnit : unit = (2 ^ zeros)⁻¹)
    (same : a * (2 ^ shift * denominator : ℕ) = d * numerator * unit) (le : a ≤ k * d) :
    roundedQuotient numerator denominator shift * unit ≤ k := by
  have bound : numerator ≤ k * 2 ^ zeros * (2 ^ shift * denominator) := by
    have isPositive : (0 : ℚ) < d := by exact_mod_cast isPositive
    have le : (a : ℚ) ≤ k * d := by exact_mod_cast le
    have scaled : (numerator : ℚ) ≤ k * 2 ^ zeros * (2 ^ shift * denominator : ℕ) := by
      refine le_of_mul_le_mul_left ?_ isPositive
      calc (d : ℚ) * numerator = d * numerator * unit * 2 ^ zeros := by rw [isUnit]; field_simp
        _ = a * (2 ^ shift * denominator : ℕ) * 2 ^ zeros := by rw [same]
        _ ≤ k * d * (2 ^ shift * denominator : ℕ) * 2 ^ zeros := by gcongr
        _ = d * (k * 2 ^ zeros * (2 ^ shift * denominator : ℕ)) := by ring
    exact_mod_cast scaled
  have rounded : (roundedQuotient numerator denominator shift : ℚ) ≤ k * 2 ^ zeros := by
    exact_mod_cast roundedQuotient_le positive bound
  rw [isUnit]
  calc _ ≤ k * 2 ^ zeros * ((2 : ℚ) ^ zeros)⁻¹ := by gcongr
    _ = k := by field_simp

end

theorem HasValue.div {x y : Float} {a d : Nat} (isA : HasValue x (a : ℤ)) (isD : HasValue y (d : ℤ))
    (small : a < 2 ^ 52) (isPositive : 0 < d) (small' : d < 2 ^ 52) :
    ∃ quotient, HasValue (x / y) quotient ∧ 0 ≤ quotient ∧
      ∀ k : Nat, (k : ℚ) < quotient ↔ k * d < a := by
  obtain ⟨mantissa', exponent', positive', unpacked', lower', upper', least', greatest', value'⟩ :=
    isD.whole.of_pos isPositive small'
  have isQuotient : x / y = Float.ofModel (Float.Model.pack
      (UnpackedFloat.div Format.binary64 x.toModel.unpack y.toModel.unpack)) := rfl
  rw [isQuotient, unpacked']
  rcases Nat.eq_zero_or_pos a with rfl | isPositive
  · have whole : Whole x.toModel.unpack 0 := isA.whole
    refine ⟨0, ?_, le_rfl, fun k => by simp [k.cast_nonneg]⟩
    generalize x.toModel.unpack = unpacked, isZero : (0 : ℤ) = zero at whole
    cases whole with
    | zero sign => exact_mod_cast (Whole.zero (sign / .positive)).hasValue
    | @finite sign mantissa exponent _ positive _ _ _ _ value =>
      subst isZero
      have size := abs_apply sign mantissa exponent
      rw [value, Int.cast_zero, abs_zero] at size
      have above : (0 : ℚ) < mantissa * 2 ^ exponent := by positivity
      exact absurd size above.ne
  · obtain ⟨mantissa, exponent, positive, unpacked, lower, upper, least, greatest, value⟩ :=
      isA.whole.of_pos isPositive small
    rw [unpacked]
    obtain ⟨shift, atMost, full, isValue⟩ :=
      @div_finite _ _ _ _ positive positive' lower upper lower' upper' least greatest least'
        greatest'
    have above : (0 : ℚ) < 2 ^ (exponent - exponent' - 53 + shift) := zpow_pos two_pos _
    have same : a * (2 ^ shift * mantissa' : ℕ) =
        d * (mantissa * 2 ^ 53 : ℕ) * (2 : ℚ) ^ (exponent - exponent' - 53 + shift) := by
      have power : (2 : ℚ) ^ exponent * 2 ^ shift =
          2 ^ exponent' * 2 ^ 53 * 2 ^ (exponent - exponent' - 53 + shift) := by
        rw [← zpow_natCast, ← zpow_natCast, ← zpow_add₀ two_ne_zero, ← zpow_add₀ two_ne_zero,
          ← zpow_add₀ two_ne_zero]
        congr 1
        push_cast
        ring
      rw [← value, ← value']
      push_cast
      linear_combination (mantissa * mantissa' : ℚ) * power
    refine ⟨_, isValue, by positivity, fun k => ⟨fun exceeds => ?_, fun less => ?_⟩⟩
    · by_contra notLess
      obtain ⟨zeros, isZeros⟩ : ∃ zeros : Nat, exponent - exponent' - 53 + shift = -zeros :=
        ⟨(-(exponent - exponent' - 53 + shift)).toNat, by omega⟩
      rw [isZeros, zpow_neg, zpow_natCast] at same exceeds
      exact (roundedQuotient_mul_le positive' ‹_› rfl same (by omega)).not_gt exceeds
    · exact lt_roundedQuotient_mul positive' ‹_› above small full same less

theorem roundToInt_eq (mantissa : Nat) (exponent : ℤ) : roundToInt .positive mantissa exponent =
    (mantissa * 2 ^ exponent.toNat / 2 ^ (-exponent).toNat : ℕ) := by
  have amount : (0 - (exponent - exponent.toNat)).toNat = (-exponent).toNat := by omega
  simp only [roundToInt, decreaseExponent, shiftToExponent, extended_mantissa, Sign.apply,
    Nat.shiftLeft_eq, sub_zero, amount]

theorem toUInt64_bounds {x : Float} {value : ℚ} (isValue : HasValue x value) (above : 0 ≤ value)
    (small : value < 2 ^ 53) :
    (x.toUInt64.toNat : ℚ) ≤ value ∧ value < x.toUInt64.toNat + 1 := by
  obtain ⟨negative, mantissa, exponent, found, isValue⟩ := hasValue_iff.mp isValue
  obtain ⟨floor, isFloor⟩ : ∃ floor : Nat,
      floor = mantissa * 2 ^ exponent.toNat / 2 ^ (-exponent).toNat := ⟨_, rfl⟩
  have unit : (0 : ℚ) < 2 ^ exponent := zpow_pos two_pos exponent
  have unsigned : 0 < mantissa → negative = false := by
    intro positive
    cases negative with
    | false => rfl
    | true =>
      have : (0 : ℚ) < mantissa * 2 ^ exponent := by positivity
      simp only [if_true, neg_one_mul] at isValue
      linarith
  have split : value * (2 ^ (-exponent).toNat : ℕ) = (mantissa * 2 ^ exponent.toNat : ℕ) := by
    have power : (2 : ℚ) ^ exponent * 2 ^ (-exponent).toNat = 2 ^ exponent.toNat := by
      rw [← zpow_natCast, ← zpow_natCast, ← zpow_add₀ two_ne_zero]
      congr 1
      omega
    rcases Nat.eq_zero_or_pos mantissa with rfl | positive
    · simp [← isValue]
    · rw [← isValue, unsigned positive]
      push_cast
      linear_combination (mantissa : ℚ) * power
  have bounds : (floor : ℚ) ≤ value ∧ value < floor + 1 := by
    have width : 0 < 2 ^ (-exponent).toNat := Nat.two_pow_pos _
    have width' : (0 : ℚ) < (2 ^ (-exponent).toNat : ℕ) := by exact_mod_cast width
    refine ⟨le_of_mul_le_mul_right ?_ width', lt_of_mul_lt_mul_right ?_ width'.le⟩
    · rw [split, isFloor]
      exact_mod_cast Nat.div_mul_le_self _ _
    · rw [split, isFloor]
      exact_mod_cast Nat.lt_mul_of_div_lt (Nat.lt_succ_self _) width
  have few : floor < UInt64.size := by
    have : floor < 2 ^ 53 := by exact_mod_cast bounds.1.trans_lt small
    exact this.trans (by decide)
  have whole : x.toModel.unpack.toInt 0 (UInt64.size - 1) = floor := by
    rw [unpack_eq, found, Binary.unpacked]
    split
    case isTrue positive => rw [unsigned positive, isFloor, ← roundToInt_eq]; rfl
    case isFalse isZero =>
      obtain rfl : mantissa = 0 := by omega
      simp [isFloor, toInt]
  have isWhole : x.toUInt64.toNat = floor := by
    rw [Float.toUInt64, Float.Model.toUInt64, UnpackedFloat.toUInt64, whole, Int.toNat_natCast,
      UInt64.ofNatClamp, dif_pos few, UInt64.toNat_ofNatLT]
  rwa [isWhole]

theorem lt_ceiling_iff {x : Float} {value : ℚ} (isValue : HasValue x value) (above : 0 ≤ value)
    (small : value < 2 ^ 53) (k : Nat) : k < ceiling x ↔ (k : ℚ) < value := by
  obtain ⟨lower, upper⟩ := toUInt64_bounds isValue above small
  have few : x.toUInt64.toNat < 2 ^ 53 := by exact_mod_cast lower.trans_lt small
  have compared := (hasValue_toFloat few).lt_iff isValue
  rw [Int.cast_natCast] at compared
  simp only [ceiling, compared]
  generalize x.toUInt64.toNat = floor at *
  split
  case isTrue less =>
    rw [Nat.lt_succ_iff]
    constructor
    · intro le
      exact lt_of_le_of_lt (by exact_mod_cast le) less
    · intro below
      have : (k : ℚ) < floor + 1 := below.trans upper
      exact Nat.lt_succ_iff.mp (by exact_mod_cast this)
  case isFalse notLess =>
    obtain rfl : (floor : ℚ) = value := le_antisymm lower (not_lt.mp notLess)
    exact_mod_cast Iff.rfl

end LetChain.Number
