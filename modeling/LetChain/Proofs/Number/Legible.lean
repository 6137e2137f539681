import LetChain.Number.Notation
import Mathlib

/-! The text of a number tells it from every other number. A finite number is written as a decimal
that rounds to it, and no decimal rounds to two numbers. -/

namespace LetChain.Number

/-! ### Bits -/

theorem toBits_of_nan {x : Float} (nan : decode x = .nan) :
    x.toBits.toBitVec = Float.Model.UnpackedFloat.packedNaN Float.Model.Format.binary64 := by
  have parts : x.toBits.toNat / hiddenBit % 2048 = 2047 ∧ x.toBits.toNat % hiddenBit ≠ 0 := by
    simp only [decode] at nan
    split at nan
    · split at nan <;> simp_all
    · split at nan <;> simp_all
  have model : x.toBits = x.toModel.toBits := rfl
  rw [model] at parts
  refine x.toModel.valid.eq_packedNaN ?_ fun zero => parts.2 ?_
  · apply BitVec.eq_of_toNat_eq
    simpa [Float.Model.UnpackedFloat.unpackExponent, Nat.shiftRight_eq_div_pow, hiddenBit]
      using parts.1
  · have whole := congrArg BitVec.toNat zero
    simpa [Float.Model.UnpackedFloat.unpackMantissa, hiddenBit] using whole

theorem toBits_of_infinite {x : Float} {negative : Bool} (infinite : decode x = .infinite negative) :
    x.toBits.toNat = (if negative then signBit else 0) + 2047 * hiddenBit := by
  have bound := x.toBits.toNat_lt
  simp only [decode] at infinite
  split at infinite
  case isFalse => split at infinite <;> cases infinite
  split at infinite
  case isFalse => cases infinite
  cases infinite
  simp only [hiddenBit, signBit] at *
  by_cases negative : 9223372036854775808 ≤ x.toBits.toNat <;> simp [negative] <;> omega

structure Normal (mantissa : Nat) (exponent : Int) : Prop where
  mantissa_lt : mantissa < 2 * hiddenBit
  least : leastExponent ≤ exponent
  greatest : exponent ≤ 971
  leading : hiddenBit ≤ mantissa ∨ exponent = leastExponent

theorem normal_of_finite {x : Float} {negative : Bool} {mantissa : Nat} {exponent : Int}
    (finite : decode x = .finite negative mantissa exponent) : Normal mantissa exponent := by
  have below : x.toBits.toNat % hiddenBit < hiddenBit := Nat.mod_lt _ (by decide)
  simp only [decode] at finite
  split at finite
  case isTrue => split at finite <;> cases finite
  split at finite <;> cases finite
  · exact ⟨by omega, Int.le_refl _, by decide, .inr rfl⟩
  · exact ⟨by omega, by simp only [leastExponent]; omega, by omega, .inl (by omega)⟩

theorem toBits_of_finite {x : Float} {negative : Bool} {mantissa : Nat} {exponent : Int}
    (finite : decode x = .finite negative mantissa exponent) :
    (x.toBits.toNat : Int) =
      (if negative then signBit else 0) + (exponent + 1074) * hiddenBit + mantissa := by
  have bound := x.toBits.toNat_lt
  simp only [decode] at finite
  split at finite
  case isTrue => split at finite <;> cases finite
  split at finite <;> cases finite <;> simp only [hiddenBit, signBit, leastExponent] at * <;>
    by_cases negative : 9223372036854775808 ≤ x.toBits.toNat <;> simp [negative] <;> omega

theorem decode_injective : Function.Injective decode := by
  intro x y same
  have bits : x.toBits.toBitVec = y.toBits.toBitVec → x = y := by
    obtain ⟨⟨bits, valid⟩⟩ := x
    obtain ⟨⟨bits', valid'⟩⟩ := y
    intro eq
    obtain rfl : bits = bits' := UInt64.toBitVec_inj.mp eq
    rfl
  apply bits
  cases found : decode y with
  | nan => rw [toBits_of_nan found, toBits_of_nan (same.trans found)]
  | infinite negative =>
    apply BitVec.eq_of_toNat_eq
    exact (toBits_of_infinite (same.trans found)).trans (toBits_of_infinite found).symm
  | finite negative mantissa exponent =>
    apply BitVec.eq_of_toNat_eq
    have eq := (toBits_of_finite (same.trans found)).trans (toBits_of_finite found).symm
    exact Int.ofNat_inj.mp eq

/-! ### Fractions -/

namespace Fraction

def value (x : Fraction) : ℚ := x.numerator / x.denominator

theorem le_iff {x y : Fraction} (positive : 0 < x.denominator) (positive' : 0 < y.denominator) :
    x.le y ↔ x.value ≤ y.value := by
  rw [le, decide_eq_true_eq, value, value, div_le_div_iff₀ (by exact_mod_cast positive)
    (by exact_mod_cast positive')]
  norm_cast

theorem lt_iff {x y : Fraction} (positive : 0 < x.denominator) (positive' : 0 < y.denominator) :
    x.lt y ↔ x.value < y.value := by
  rw [lt, decide_eq_true_eq, value, value, div_lt_div_iff₀ (by exact_mod_cast positive)
    (by exact_mod_cast positive')]
  norm_cast

variable {mantissa base : Nat} {exponent : Int}

theorem scaled_positive (positive : 0 < base) : 0 < (scaled mantissa base exponent).denominator := by
  simp only [scaled]
  split
  · exact Nat.one_pos
  · exact Nat.pow_pos positive

theorem scaled_value : (scaled mantissa base exponent).value = mantissa * (base : ℚ) ^ exponent := by
  simp only [scaled]
  split
  case isTrue whole =>
    obtain ⟨power, rfl⟩ := Int.eq_ofNat_of_zero_le whole
    simp [value]
  case isFalse below =>
    obtain ⟨power, eq⟩ := Int.eq_ofNat_of_zero_le (show 0 ≤ -exponent by omega)
    obtain rfl : exponent = -power := by omega
    simp [value, div_eq_mul_inv]

end Fraction

/-! ### Neighbourhoods -/

namespace Neighbourhood

def Holds (around : Neighbourhood) (x : ℚ) : Prop :=
  around.low.value ≤ x ∧ x ≤ around.high.value ∧
    (around.closed = false → around.low.value < x ∧ x < around.high.value)

theorem contains_iff {mantissa digits : Nat} {exponent power : Int} :
    (neighbourhood mantissa exponent).contains (Fraction.scaled digits 10 power) ↔
      (neighbourhood mantissa exponent).Holds (digits * (10 : ℚ) ^ power) := by
  have positive : 0 < (Fraction.scaled digits 10 power).denominator :=
    Fraction.scaled_positive (by decide)
  have value : (Fraction.scaled digits 10 power).value = digits * (10 : ℚ) ^ power := by
    rw [Fraction.scaled_value]
    norm_num
  have low : 0 < (neighbourhood mantissa exponent).low.denominator := by
    simp only [neighbourhood]
    split <;> exact Fraction.scaled_positive (by decide)
  have high : 0 < (neighbourhood mantissa exponent).high.denominator :=
    Fraction.scaled_positive (by decide)
  rw [contains, Holds]
  split
  case isTrue closed =>
    rw [Bool.and_eq_true, Fraction.le_iff low positive, Fraction.le_iff positive high, value, closed]
    simp
  case isFalse isOpen =>
    rw [Bool.and_eq_true, Fraction.lt_iff low positive, Fraction.lt_iff positive high, value]
    constructor
    · rintro ⟨above, below⟩
      exact ⟨above.le, below.le, fun _ => ⟨above, below⟩⟩
    · intro holds
      exact holds.2.2 (by simpa using isOpen)

end Neighbourhood

variable {mantissa mantissa' : Nat} {exponent exponent' : Int}

theorem neighbourhood_high : (neighbourhood mantissa exponent).high.value =
    (2 * mantissa + 1) * (2 : ℚ) ^ (exponent - 1) := by
  rw [neighbourhood, Fraction.scaled_value]
  push_cast
  ring

theorem neighbourhood_low (positive : 0 < mantissa) : (neighbourhood mantissa exponent).low.value =
    if mantissa = hiddenBit ∧ leastExponent < exponent then
      (2 * mantissa - 1 / 2) * (2 : ℚ) ^ (exponent - 1)
    else (2 * mantissa - 1) * (2 : ℚ) ^ (exponent - 1) := by
  have half : (2 : ℚ) ^ (exponent - 1) = 2 ^ (exponent - 2) * 2 := by
    rw [← zpow_add_one₀ two_ne_zero]
    congr 1
    ring
  simp only [neighbourhood]
  split <;> rw [Fraction.scaled_value, Nat.cast_sub (by omega)] <;> push_cast
  · rw [half]
    ring
  · ring

theorem neighbourhood_apart {x : ℚ} (normal : Normal mantissa exponent)
    (normal' : Normal mantissa' exponent') (positive' : 0 < mantissa')
    (before : exponent < exponent' ∨ exponent = exponent' ∧ mantissa < mantissa')
    (holds : (neighbourhood mantissa exponent).Holds x)
    (holds' : (neighbourhood mantissa' exponent').Holds x) : False := by
  obtain ⟨-, below, inside⟩ := holds
  obtain ⟨above, -, inside'⟩ := holds'
  rw [neighbourhood_high] at below inside
  rw [neighbourhood_low positive'] at above inside'
  have unit : (0 : ℚ) < 2 ^ (exponent - 1) := by positivity
  rcases before with before | ⟨rfl, before⟩
  · have leading : hiddenBit ≤ mantissa' := by
      rcases normal'.leading with leading | least
      · exact leading
      · have := normal.least
        omega
    have units : 2 * (2 : ℚ) ^ (exponent - 1) ≤ 2 ^ (exponent' - 1) := by
      rw [← zpow_one_add₀ two_ne_zero]
      exact zpow_le_zpow_right₀ one_le_two (by omega)
    have bound : mantissa + 1 ≤ 2 * hiddenBit := normal.mantissa_lt
    split at above
    case isTrue power =>
      -- The ends may be equal, where an odd mantissa meets a power of two.
      have ends : (2 * hiddenBit - 1 / 2 : ℚ) * (2 * 2 ^ (exponent - 1)) ≤ x := by
        refine le_trans ?_ above
        rw [power.1]
        gcongr
        norm_num [hiddenBit]
      by_cases odd : mantissa + 1 = 2 * hiddenBit
      · have strict := (inside (by simp only [neighbourhood, hiddenBit] at *; simp; omega)).2
        have cast : (mantissa : ℚ) + 1 = 2 * hiddenBit := by exact_mod_cast odd
        nlinarith
      · have cast : (mantissa : ℚ) + 2 ≤ 2 * hiddenBit := by exact_mod_cast (by omega)
        nlinarith
    case isFalse power =>
      have cast : (mantissa : ℚ) + 1 ≤ 2 * hiddenBit := by exact_mod_cast bound
      have cast' : (hiddenBit : ℚ) + 1 ≤ mantissa' := by
        have := normal.least
        exact_mod_cast (by omega : hiddenBit + 1 ≤ mantissa')
      nlinarith
  · have normalLow : ¬(mantissa' = hiddenBit ∧ leastExponent < exponent) := by
      rintro ⟨eq, more⟩
      rcases normal.leading with leading | least
      · omega
      · omega
    rw [if_neg normalLow] at above inside'
    by_cases next : mantissa + 1 = mantissa'
    · have cast : (mantissa : ℚ) + 1 = mantissa' := by exact_mod_cast next
      by_cases even : mantissa % 2 = 0
      · have strict := (inside' (by simp only [neighbourhood]; simp; omega)).1
        nlinarith
      · have strict := (inside (by simpa [neighbourhood] using even)).2
        nlinarith
    · have cast : (mantissa : ℚ) + 2 ≤ mantissa' := by exact_mod_cast (by omega)
      nlinarith

/-! ### The search -/

theorem ten_zpow_le_two_zpow {power bits : Int} (upper : 0 ≤ power → 10 * power ≤ 3 * bits)
    (lower : power < 0 → 43 * power ≤ 13 * bits) : (10 : ℚ) ^ power ≤ 2 ^ bits := by
  have swap (count : Nat) : ((10 : ℚ) ^ power) ^ count = (10 ^ count) ^ power := by
    rw [← zpow_natCast, zpow_comm, zpow_natCast]
  have gather (count : Nat) : ((2 : ℚ) ^ bits) ^ count = 2 ^ (count * bits) := by
    rw [← zpow_natCast, ← zpow_mul, mul_comm]
  rcases le_or_gt 0 power with whole | below
  · refine (pow_le_pow_iff_left₀ (by positivity) (by positivity) three_ne_zero).mp ?_
    calc ((10 : ℚ) ^ power) ^ 3 = (10 ^ 3) ^ power := swap 3
      _ ≤ (2 ^ (10 : Int)) ^ power := zpow_le_zpow_left₀ whole (by norm_num) (by norm_num)
      _ = 2 ^ (10 * power) := (zpow_mul _ _ _).symm
      _ ≤ 2 ^ (3 * bits) := zpow_le_zpow_right₀ one_le_two (upper whole)
      _ = (2 ^ bits) ^ 3 := (gather 3).symm
  · refine (pow_le_pow_iff_left₀ (by positivity) (by positivity) (by decide : 13 ≠ 0)).mp ?_
    have antitone : ((10 : ℚ) ^ 13) ^ power ≤ (2 ^ (43 : Int)) ^ power := by
      obtain ⟨count, rfl⟩ := Int.eq_negSucc_of_lt_zero below
      rw [zpow_negSucc, zpow_negSucc]
      gcongr
      norm_num
    calc ((10 : ℚ) ^ power) ^ 13 = (10 ^ 13) ^ power := swap 13
      _ ≤ (2 ^ (43 : Int)) ^ power := antitone
      _ = 2 ^ (43 * power) := (zpow_mul _ _ _).symm
      _ ≤ 2 ^ (13 * bits) := zpow_le_zpow_right₀ one_le_two (lower below)
      _ = (2 ^ bits) ^ 13 := (gather 13).symm

theorem orderOfMagnitude_le (normal : Normal mantissa exponent) (positive : 0 < mantissa) :
    (10 : ℚ) ^ orderOfMagnitude mantissa exponent ≤ mantissa * (2 : ℚ) ^ exponent := by
  have fits {power : Int}
      (le : (Fraction.scaled 1 10 power).le (Fraction.scaled mantissa 2 exponent) = true) :
      (10 : ℚ) ^ power ≤ mantissa * (2 : ℚ) ^ exponent := by
    rw [Fraction.le_iff (Fraction.scaled_positive (by decide))
      (Fraction.scaled_positive (by decide)), Fraction.scaled_value, Fraction.scaled_value] at le
    simpa using le
  simp only [orderOfMagnitude]
  split
  case isTrue le => exact fits le
  split
  case isTrue le => exact fits le
  split
  case isTrue le => exact fits le
  have size : mantissa.log2 < 53 := by
    refine (Nat.log2_lt (by omega)).mpr (lt_of_lt_of_le normal.mantissa_lt (by decide))
  have leading : (2 : ℚ) ^ (mantissa.log2 : Int) ≤ mantissa := by
    exact_mod_cast Nat.log2_self_le (by omega)
  have least := normal.least
  have greatest := normal.greatest
  simp only [leastExponent] at least
  calc (10 : ℚ) ^ (((mantissa.log2 : Int) + exponent + 1) * 30103 / 100000 + 1 - 3)
      ≤ 2 ^ ((mantissa.log2 : Int) + exponent) :=
        ten_zpow_le_two_zpow (by omega) (by omega)
    _ = 2 ^ (mantissa.log2 : Int) * 2 ^ exponent := zpow_add₀ two_ne_zero _ _
    _ ≤ mantissa * 2 ^ exponent := by gcongr

theorem onGrid?_holds {power : Int} {found : Decimal}
    (some : onGrid? (neighbourhood mantissa exponent) (Fraction.scaled mantissa 2 exponent) power =
      some found) :
    (neighbourhood mantissa exponent).Holds (found.digits * (10 : ℚ) ^ found.exponent) ∧
      found.exponent = power := by
  simp only [onGrid?] at some
  split at some
  case isTrue reads =>
    cases some
    rw [Bool.and_eq_true] at reads
    exact ⟨Neighbourhood.contains_iff.mp reads.1, rfl⟩
  split at some
  case isTrue reads =>
    cases some
    exact ⟨Neighbourhood.contains_iff.mp reads, rfl⟩
  case isFalse => cases some

theorem floor_bounds (mantissa : Nat) (exponent power : Int) :
    let x := Fraction.scaled mantissa 2 exponent
    let unit := Fraction.scaled 1 10 power
    let below := x.numerator * unit.denominator / (x.denominator * unit.numerator)
    below * (10 : ℚ) ^ power ≤ mantissa * 2 ^ exponent ∧
      mantissa * (2 : ℚ) ^ exponent < (below + 1) * 10 ^ power := by
  intro x unit below
  have value : x.value = mantissa * (2 : ℚ) ^ exponent := Fraction.scaled_value
  have step : unit.value = (10 : ℚ) ^ power := by
    rw [Fraction.scaled_value]
    simp
  have positive : 0 < x.denominator := Fraction.scaled_positive (by decide)
  have positive' : 0 < unit.denominator := Fraction.scaled_positive (by decide)
  have nonzero : 0 < unit.numerator := by
    by_contra zero
    have : (0 : ℚ) < 10 ^ power := by positivity
    rw [← step, Fraction.value, Nat.eq_zero_of_not_pos zero] at this
    simp at this
  have total : 0 < x.denominator * unit.numerator := Nat.mul_pos positive nonzero
  have le : below * (x.denominator * unit.numerator) ≤ x.numerator * unit.denominator :=
    Nat.div_mul_le_self _ _
  have lt : x.numerator * unit.denominator < (below + 1) * (x.denominator * unit.numerator) := by
    rw [Nat.succ_mul]
    exact Nat.lt_div_mul_add total
  rw [← value, ← step, Fraction.value, Fraction.value, mul_div_assoc', mul_div_assoc',
    div_le_div_iff₀ (by exact_mod_cast positive') (by exact_mod_cast positive),
    div_lt_div_iff₀ (by exact_mod_cast positive) (by exact_mod_cast positive')]
  norm_cast
  constructor
  · calc below * unit.numerator * x.denominator = below * (x.denominator * unit.numerator) := by ring
      _ ≤ x.numerator * unit.denominator := le
  · calc x.numerator * unit.denominator < (below + 1) * (x.denominator * unit.numerator) := lt
      _ = (below + 1) * unit.numerator * x.denominator := by ring

theorem onGrid?_ne_none {power : Int} (positive : 0 < mantissa)
    (fine : (10 : ℚ) ^ power < 2 ^ (exponent - 1) / 2) :
    onGrid? (neighbourhood mantissa exponent) (Fraction.scaled mantissa 2 exponent) power ≠ none := by
  let below := (Fraction.scaled mantissa 2 exponent).numerator *
    (Fraction.scaled 1 10 power).denominator /
      ((Fraction.scaled mantissa 2 exponent).denominator * (Fraction.scaled 1 10 power).numerator)
  have reads : (neighbourhood mantissa exponent).contains (Fraction.scaled below 10 power) := by
    rw [Neighbourhood.contains_iff]
    obtain ⟨le, lt⟩ := floor_bounds mantissa exponent power
    have unit : (2 : ℚ) ^ exponent = 2 * 2 ^ (exponent - 1) := by
      rw [← zpow_one_add₀ two_ne_zero]
      congr 1
      ring
    have small : (0 : ℚ) < 2 ^ (exponent - 1) := by positivity
    have low : (neighbourhood mantissa exponent).low.value < below * 10 ^ power := by
      rw [neighbourhood_low positive]
      split <;> nlinarith
    have high : below * (10 : ℚ) ^ power < (neighbourhood mantissa exponent).high.value := by
      rw [neighbourhood_high]
      nlinarith
    exact ⟨low.le, high.le, fun _ => ⟨low, high⟩⟩
  simp only [onGrid?]
  split
  · nofun
  · split
    · nofun
    · simp_all [below]

theorem searchGrids_holds {magnitude : Int} {count tries last : Nat} (tried : count ≤ last)
    (within : last < count + tries)
    (found : onGrid? (neighbourhood mantissa exponent) (Fraction.scaled mantissa 2 exponent)
      (magnitude - last) ≠ none) :
    let decimal := searchGrids (neighbourhood mantissa exponent)
      (Fraction.scaled mantissa 2 exponent) magnitude count tries
    (neighbourhood mantissa exponent).Holds (decimal.digits * (10 : ℚ) ^ decimal.exponent) := by
  induction tries generalizing count with
  | zero => omega
  | succ tries ih =>
    simp only [searchGrids]
    split
    case h_1 decimal some =>
      obtain ⟨holds, power⟩ := onGrid?_holds some
      split
      case isTrue full =>
        -- As many nines as there are digits were rounded up: the same decimal with one digit.
        rw [full, power] at holds
        have eq : ((Nat.pow 10 (count + 1) : Nat) : ℚ) * 10 ^ (magnitude - count) =
            (1 : Nat) * 10 ^ (magnitude + 1) := by
          rw [Nat.pow_eq]
          push_cast
          rw [← zpow_natCast, ← zpow_add₀ (by norm_num), one_mul]
          congr 1
          push_cast
          ring
        rwa [eq] at holds
      case isFalse => exact holds
    case h_2 none =>
      refine ih ?_ (by omega)
      rcases Nat.lt_or_eq_of_le tried with later | rfl
      · exact later
      · exact absurd none found

theorem shortest_holds (normal : Normal mantissa exponent) (positive : 0 < mantissa) :
    (neighbourhood mantissa exponent).Holds
      ((shortest mantissa exponent).digits * (10 : ℚ) ^ (shortest mantissa exponent).exponent) := by
  refine searchGrids_holds (Nat.zero_le 17) (by decide) (onGrid?_ne_none positive ?_)
  have bound : (mantissa : ℚ) < 9007199254740992 := by exact_mod_cast normal.mantissa_lt
  have unit : (2 : ℚ) ^ exponent = 2 * 2 ^ (exponent - 1) := by
    rw [← zpow_one_add₀ two_ne_zero]
    congr 1
    ring
  have small : (0 : ℚ) < 2 ^ (exponent - 1) := by positivity
  have magnitude := orderOfMagnitude_le normal positive
  rw [unit] at magnitude
  rw [zpow_sub₀ (by norm_num), div_lt_iff₀ (by positivity)]
  refine magnitude.trans_lt ?_
  norm_num
  nlinarith

/-! ### Notation -/

def positionalValue (cs : List Char) : ℚ :=
  digitsValue (cs.filter (· ≠ '.')) / 10 ^ ((cs.dropWhile (· ≠ '.')).length - 1)

theorem ne_point_of_isDigit {c : Char} (isDigit : c.isDigit) : decide (c ≠ '.') = true := by
  rw [decide_eq_true_eq]
  rintro rfl
  cases isDigit

theorem positionalValue_whole {cs : List Char} (digits : ∀ c ∈ cs, c.isDigit) :
    positionalValue cs = digitsValue cs := by
  have plain : ∀ c ∈ cs, decide (c ≠ '.') = true := fun c member => ne_point_of_isDigit (digits c member)
  rw [positionalValue, List.filter_eq_self.mpr plain, List.dropWhile_eq_nil_iff.mpr plain]
  simp

theorem positionalValue_point {whole fraction : List Char} (digits : ∀ c ∈ whole, c.isDigit)
    (digits' : ∀ c ∈ fraction, c.isDigit) :
    positionalValue (whole ++ '.' :: fraction) =
      digitsValue (whole ++ fraction) / 10 ^ fraction.length := by
  have plain : ∀ c ∈ whole, decide (c ≠ '.') = true :=
    fun c member => ne_point_of_isDigit (digits c member)
  have plain' : ∀ c ∈ fraction, decide (c ≠ '.') = true :=
    fun c member => ne_point_of_isDigit (digits' c member)
  rw [positionalValue, List.filter_append, List.filter_eq_self.mpr plain,
    List.filter_cons_of_neg (by simp), List.filter_eq_self.mpr plain',
    List.dropWhile_append_of_pos plain, List.dropWhile_cons_of_neg (by simp)]
  simp

theorem digitsValue_repr (n : Nat) : digitsValue (Nat.toDigits 10 n) = n := Nat.ofDigitChars_ten_toDigits

theorem digitsValue_zeros (count : Nat) (cs : List Char) :
    digitsValue (List.replicate count '0' ++ cs) = digitsValue cs := by
  have split := Nat.ofDigitChars_append (b := 10) (l := List.replicate count '0') (m := cs) 0
  rwa [Nat.ofDigitChars_replicate_zero, Nat.mul_zero] at split

theorem isDigit_toDigits {n : Nat} : ∀ c ∈ Nat.toDigits 10 n, c.isDigit :=
  fun _ member => Nat.isDigit_of_mem_toDigits (by decide) (by decide) member

theorem isDigit_replicate {count : Nat} : ∀ c ∈ List.replicate count '0', c.isDigit := by
  intro c member
  rw [List.eq_of_mem_replicate member]
  rfl

theorem positional_value (decimal : Decimal) :
    positionalValue decimal.positional.toList = decimal.digits * (10 : ℚ) ^ decimal.exponent := by
  obtain ⟨digits, exponent⟩ := decimal
  simp only [Decimal.positional, zeros]
  split
  case isTrue whole =>
    obtain ⟨power, rfl⟩ := Int.eq_ofNat_of_zero_le whole
    have value : digitsValue (Nat.toDigits 10 digits ++ List.replicate power '0') =
        10 ^ power * digits := by
      have split := Nat.ofDigitChars_append (b := 10) (l := Nat.toDigits 10 digits)
        (m := List.replicate power '0') 0
      rwa [Nat.ofDigitChars_ten_toDigits, Nat.ofDigitChars_replicate_zero] at split
    rw [String.toList_append, Nat.toList_repr, String.toList_ofList, Int.toNat_natCast,
      positionalValue_whole, value]
    · push_cast
      rw [zpow_natCast, mul_comm]
    · intro c member
      rcases List.mem_append.mp member with member | member
      · exact isDigit_toDigits c member
      · exact isDigit_replicate c member
  case isFalse below =>
    obtain ⟨places, rfl⟩ : ∃ places : Nat, exponent = -places := ⟨(-exponent).toNat, by omega⟩
    rw [Int.neg_neg, Int.toNat_natCast, Nat.toList_repr, zpow_neg, zpow_natCast, ← div_eq_mul_inv]
    split
    case isTrue inside =>
      rw [String.toList_ofList, positionalValue_point, List.take_append_drop, digitsValue_repr,
        List.length_drop, Nat.sub_sub_self inside.le]
      · exact fun c member => isDigit_toDigits c (List.mem_of_mem_take member)
      · exact fun c member => isDigit_toDigits c (List.mem_of_mem_drop member)
    case isFalse outside =>
      have shape (gap : Nat) : ("0." ++ String.ofList (List.replicate gap '0') ++
          Nat.repr digits).toList = List.replicate 1 '0' ++
            '.' :: (List.replicate gap '0' ++ Nat.toDigits 10 digits) := by
        simp [Nat.toList_repr]
      rw [shape, positionalValue_point, digitsValue_zeros, digitsValue_zeros, digitsValue_repr,
        List.length_append, List.length_replicate, Nat.sub_add_cancel (Nat.le_of_not_lt outside)]
      · exact isDigit_replicate
      · intro c member
        rcases List.mem_append.mp member with member | member
        · exact isDigit_replicate c member
        · exact isDigit_toDigits c member

/-! ### Texts -/

namespace Binary

def negative : Binary → Bool
  | .nan => false
  | .infinite negative => negative
  | .finite negative _ _ => negative

def magnitude : Binary → List Char
  | .nan => ['N', 'a', 'N']
  | .infinite _ => ['i', 'n', 'f']
  | .finite _ mantissa exponent =>
    if mantissa = 0 then ['0'] else (shortest mantissa exponent).positional.toList

end Binary

theorem text_toList (x : Float) : (text x).toList =
    (if (decode x).negative then ['-'] else []) ++ (decode x).magnitude := by
  simp only [text]
  cases decode x with
  | nan => rfl
  | infinite negative => cases negative <;> rfl
  | finite negative mantissa exponent =>
    cases negative <;> by_cases zero : mantissa = 0 <;>
      simp [Binary.negative, Binary.magnitude, zero]

theorem positional_head (decimal : Decimal) :
    ∃ digit rest, decimal.positional.toList = digit :: rest ∧ digit.isDigit := by
  obtain ⟨digits, exponent⟩ := decimal
  obtain ⟨digit, rest, eq⟩ := List.exists_cons_of_ne_nil (Nat.toDigits_ne_nil (n := digits) (b := 10))
  have isDigit : digit.isDigit := isDigit_toDigits digit (by rw [eq]; exact List.mem_cons_self)
  simp only [Decimal.positional, zeros]
  split
  case isTrue => exact ⟨digit, _, by rw [String.toList_append, Nat.toList_repr, eq]; rfl, isDigit⟩
  case isFalse =>
    split
    case isTrue inside =>
      rw [Nat.toList_repr, eq] at *
      obtain ⟨count, length⟩ : ∃ count, (digit :: rest).length - (-exponent).toNat = count + 1 :=
        ⟨(digit :: rest).length - (-exponent).toNat - 1, by omega⟩
      exact ⟨digit, _, by rw [String.toList_ofList, length, List.take_succ_cons]; rfl, isDigit⟩
    case isFalse => exact ⟨'0', _, by rw [String.toList_append, String.toList_append]; rfl, rfl⟩

theorem magnitude_head (binary : Binary) : ∃ first rest, binary.magnitude = first :: rest ∧
    match binary with
    | .nan => first = 'N'
    | .infinite _ => first = 'i'
    | .finite .. => first.isDigit := by
  cases binary with
  | nan => exact ⟨'N', _, rfl, rfl⟩
  | infinite => exact ⟨'i', _, rfl, rfl⟩
  | finite _ mantissa exponent =>
    simp only [Binary.magnitude]
    split
    · exact ⟨'0', [], rfl, rfl⟩
    · exact positional_head _

theorem magnitude_value (normal : Normal mantissa exponent) (negative : Bool) :
    let value := positionalValue (Binary.finite negative mantissa exponent).magnitude
    if mantissa = 0 then value = 0
    else 0 < value ∧ (neighbourhood mantissa exponent).Holds value := by
  simp only [Binary.magnitude]
  split
  case isTrue zero => simp [positionalValue, digitsValue]
  case isFalse nonzero =>
    rw [positional_value]
    have holds := shortest_holds normal (Nat.pos_of_ne_zero nonzero)
    refine ⟨lt_of_lt_of_le ?_ holds.1, holds⟩
    rw [neighbourhood_low (Nat.pos_of_ne_zero nonzero)]
    have one : (1 : ℚ) ≤ mantissa := by exact_mod_cast Nat.pos_of_ne_zero nonzero
    have unit : (0 : ℚ) < 2 ^ (exponent - 1) := by positivity
    split <;> nlinarith

theorem magnitude_finite_injective {negative negative' : Bool} (normal : Normal mantissa exponent)
    (normal' : Normal mantissa' exponent')
    (same : (Binary.finite negative mantissa exponent).magnitude =
      (Binary.finite negative' mantissa' exponent').magnitude) :
    mantissa = mantissa' ∧ exponent = exponent' := by
  have value := magnitude_value normal negative
  have value' := magnitude_value normal' negative'
  rw [same] at value
  dsimp only at value value'
  by_cases zero : mantissa = 0
  · by_cases zero' : mantissa' = 0
    · have least : hiddenBit ≤ 0 ∨ exponent = leastExponent := zero ▸ normal.leading
      have least' : hiddenBit ≤ 0 ∨ exponent' = leastExponent := zero' ▸ normal'.leading
      simp only [hiddenBit] at least least'
      omega
    · rw [if_pos zero] at value
      rw [if_neg zero', value] at value'
      exact absurd value'.1 (lt_irrefl _)
  · by_cases zero' : mantissa' = 0
    · rw [if_pos zero'] at value'
      rw [if_neg zero, value'] at value
      exact absurd value.1 (lt_irrefl _)
    · rw [if_neg zero] at value
      rw [if_neg zero'] at value'
      have apart := fun before =>
        neighbourhood_apart normal normal' (Nat.pos_of_ne_zero zero') before value.2 value'.2
      have apart' := fun before =>
        neighbourhood_apart normal' normal (Nat.pos_of_ne_zero zero) before value'.2 value.2
      rcases lt_trichotomy exponent exponent' with less | eq | more
      · exact (apart (.inl less)).elim
      · rcases lt_trichotomy mantissa mantissa' with less | eq' | more
        · exact (apart (.inr ⟨eq, less⟩)).elim
        · exact ⟨eq', eq⟩
        · exact (apart' (.inr ⟨eq.symm, more⟩)).elim
      · exact (apart' (.inl more)).elim

theorem sign_injective {binary binary' : Binary}
    (same : (if binary.negative then ['-'] else []) ++ binary.magnitude =
      (if binary'.negative then ['-'] else []) ++ binary'.magnitude) :
    binary.negative = binary'.negative ∧ binary.magnitude = binary'.magnitude := by
  have unsigned (binary : Binary) (rest : List Char) : binary.magnitude ≠ '-' :: rest := by
    obtain ⟨first, others, eq, kind⟩ := magnitude_head binary
    rw [eq]
    rintro ⟨⟩
    cases binary <;> cases kind
  cases sign : binary.negative <;> cases sign' : binary'.negative <;> rw [sign, sign'] at same
  · exact ⟨rfl, same⟩
  · exact (unsigned binary _ same).elim
  · exact (unsigned binary' _ same.symm).elim
  · exact ⟨rfl, List.append_cancel_left same⟩

theorem text_injective : Function.Injective text := by
  intro x y same
  apply decode_injective
  have chars := congrArg String.toList same
  rw [text_toList, text_toList] at chars
  obtain ⟨sign, magnitude⟩ := sign_injective chars
  obtain ⟨first, rest, eq, kind⟩ := magnitude_head (decode x)
  obtain ⟨first', rest', eq', kind'⟩ := magnitude_head (decode y)
  obtain ⟨rfl, rfl⟩ : first = first' ∧ rest = rest' := by simpa [eq, eq'] using magnitude
  cases found : decode x with
  | nan =>
    rw [found] at kind
    cases found' : decode y <;> rw [found'] at kind' <;> cases kind <;> first | rfl | cases kind'
  | infinite negative =>
    rw [found] at kind sign
    cases found' : decode y <;> rw [found'] at kind' sign <;> cases kind <;> try cases kind'
    exact congrArg Binary.infinite sign
  | finite negative mantissa exponent =>
    rw [found] at kind sign magnitude
    cases found' : decode y <;> rw [found'] at kind' sign magnitude
    · cases kind'
      cases kind
    · cases kind'
      cases kind
    · obtain ⟨rfl, rfl⟩ := magnitude_finite_injective (normal_of_finite found)
        (normal_of_finite found') magnitude
      exact congrArg (Binary.finite · mantissa exponent) sign

theorem positional_chars (decimal : Decimal) :
    ∀ c ∈ decimal.positional.toList, c.isDigit ∨ c = '.' := by
  obtain ⟨digits, exponent⟩ := decimal
  simp only [Decimal.positional, zeros]
  intro c member
  split at member
  case isTrue =>
    rw [String.toList_append, Nat.toList_repr, String.toList_ofList, List.mem_append] at member
    exact .inl (member.elim (isDigit_toDigits c) (isDigit_replicate c))
  case isFalse =>
    split at member
    case isTrue =>
      rw [String.toList_ofList, Nat.toList_repr, List.mem_append, List.mem_cons] at member
      rcases member with member | rfl | member
      · exact .inl (isDigit_toDigits c (List.mem_of_mem_take member))
      · exact .inr rfl
      · exact .inl (isDigit_toDigits c (List.mem_of_mem_drop member))
    case isFalse =>
      simp only [String.toList_append, Nat.toList_repr, String.toList_ofList, List.mem_append]
        at member
      rcases member with (member | member) | member
      · rcases List.mem_pair.mp member with rfl | rfl
        · exact .inl rfl
        · exact .inr rfl
      · exact .inl (isDigit_replicate c member)
      · exact .inl (isDigit_toDigits c member)

theorem text_line (x : Float) : '\n' ∉ (text x).toList := by
  have magnitude : '\n' ∉ (decode x).magnitude := by
    cases decode x with
    | nan => decide
    | infinite => simp [Binary.magnitude]
    | finite _ mantissa exponent =>
      simp only [Binary.magnitude]
      split
      · decide
      · intro member
        rcases positional_chars _ _ member with wrong | wrong <;> cases wrong
  rw [text_toList, List.mem_append]
  rintro (member | member)
  · split at member
    · simp at member
    · cases member
  · exact magnitude member

end LetChain.Number
