import LetChain.Proofs.Number.Legible

/-! Natural numbers keep their order when they are rounded. Numbers that are not negative are ordered
as their bits are, and rounding to the nearest moves no natural number past another. -/

namespace LetChain.Number

open Float.Model Float.Model.UnpackedFloat

def sign (negative : Bool) : Sign := if negative then .negative else .positive

def Binary.unpacked : Binary → UnpackedFloat
  | .nan => .notANumber
  | .infinite negative => .infinity (sign negative)
  | .finite negative mantissa exponent =>
    if positive : 0 < mantissa then .finite (sign negative) mantissa exponent positive
    else .zero (sign negative)

theorem unpack_eq (x : Float) : x.toModel.unpack = (decode x).unpacked := by
  obtain ⟨⟨bits, valid⟩⟩ := x
  have exponent : (@unpackExponent Format.binary64 bits.toBitVec).toNat =
      bits.toNat / hiddenBit % 2048 := by
    simp [unpackExponent, Nat.shiftRight_eq_div_pow, hiddenBit]
  have mantissa : (@unpackMantissa Format.binary64 bits.toBitVec).toNat =
      bits.toNat % hiddenBit := by
    simp [unpackMantissa, hiddenBit]
  have top : (@unpackSign Format.binary64 bits.toBitVec).toNat = bits.toNat / signBit := by
    have bound := bits.toNat_lt
    simp [unpackSign, Nat.shiftRight_eq_div_pow, signBit]
    omega
  have signs : Sign.ofBitVec (@unpackSign Format.binary64 bits.toBitVec) =
      sign (signBit ≤ bits.toNat) := by
    simp only [Sign.ofBitVec, sign, ← BitVec.toNat_inj, top, BitVec.toNat_ofNat, Nat.zero_mod]
    by_cases negative : signBit ≤ bits.toNat
    · have isOne : ¬bits.toNat / signBit = 0 := by simp only [signBit] at *; omega
      rw [if_neg isOne, if_pos (decide_eq_true negative)]
    · have isZero : bits.toNat / signBit = 0 := by simp only [signBit] at *; omega
      rw [if_pos isZero, if_neg (by simpa using negative)]
  have whole : (1#1 ++ @unpackMantissa Format.binary64 bits.toBitVec).toNat =
      hiddenBit + bits.toNat % hiddenBit := by
    rw [BitVec.toNat_append, ← Nat.shiftLeft_add_eq_or_of_lt (BitVec.isLt _), mantissa]
    rfl
  have stored : (Float.ofModel ⟨bits, valid⟩).toBits.toNat = bits.toNat := rfl
  have infinite : (-1#11).toNat = 2047 := rfl
  have zero52 : (0#52).toNat = 0 := rfl
  have zero11 : (0#11).toNat = 0 := rfl
  have bias : (Format.binary64.exponentBias : Int) + (52 : Nat) = 1075 := rfl
  rw [decode, stored]
  simp only [Float.Model.unpack, UnpackedFloat.unpack, ← BitVec.toNat_inj, exponent, mantissa, signs,
    whole, infinite, zero52, zero11, bias]
  split
  case isTrue => split <;> rfl
  case isFalse =>
    split
    case isFalse => rw [Binary.unpacked, dif_pos]
    case isTrue isLeast =>
      rw [Binary.unpacked]
      split
      case isTrue isZero => rw [dif_neg (by omega)]
      case isFalse isPositive =>
        rw [dif_pos (by omega), isLeast]
        rfl

/-! ### Places -/

def Binary.place? : Binary → Option Nat
  | .infinite false => some (2047 * hiddenBit)
  | .finite false mantissa exponent =>
    some ((exponent - leastExponent).toNat * hiddenBit + mantissa)
  | _ => none

section

variable {mantissa mantissa' : Nat} {exponent exponent' : Int}

theorem Normal.place_lt_iff (normal : Normal mantissa exponent)
    (normal' : Normal mantissa' exponent') :
    (exponent - leastExponent).toNat * hiddenBit + mantissa <
        (exponent' - leastExponent).toNat * hiddenBit + mantissa' ↔
      exponent < exponent' ∨ exponent = exponent' ∧ mantissa < mantissa' := by
  obtain ⟨below, least, greatest, leading⟩ := normal
  obtain ⟨below', least', greatest', leading'⟩ := normal'
  simp only [hiddenBit, leastExponent] at *
  omega

theorem Normal.place_lt_infinite (normal : Normal mantissa exponent) :
    (exponent - leastExponent).toNat * hiddenBit + mantissa < 2047 * hiddenBit := by
  obtain ⟨below, least, greatest, leading⟩ := normal
  simp only [hiddenBit, leastExponent] at *
  omega

theorem Normal.exponent_of_zero (normal : Normal mantissa exponent) (isZero : ¬0 < mantissa) :
    exponent = leastExponent := by
  rcases normal.leading with leading | least
  · simp only [hiddenBit] at leading
    omega
  · exact least

theorem compare_then_lt : (compare exponent exponent').then (compare mantissa mantissa') = .lt ↔
    exponent < exponent' ∨ exponent = exponent' ∧ mantissa < mantissa' := by
  rw [Ordering.then_eq_lt, Int.compare_eq_lt, Int.compare_eq_eq, Nat.compare_eq_lt]

theorem Normal.compare_lt (normal : Normal mantissa exponent)
    (normal' : Normal mantissa' exponent') :
    (Binary.finite false mantissa exponent).unpacked.compare
        (Binary.finite false mantissa' exponent').unpacked = some .lt ↔
      exponent < exponent' ∨ exponent = exponent' ∧ mantissa < mantissa' := by
  have least := normal.least
  have least' := normal'.least
  by_cases positive : 0 < mantissa <;> by_cases positive' : 0 < mantissa' <;>
    simp only [Binary.unpacked, positive, positive', dite_true, dite_false, sign, Bool.false_eq_true,
      if_false, UnpackedFloat.compare, Option.some.injEq, compare_then_lt, reduceCtorEq, false_iff,
      true_iff]
  · have zero' := normal'.exponent_of_zero positive'
    omega
  · have zero := normal.exponent_of_zero positive
    omega
  · have zero := normal.exponent_of_zero positive
    have zero' := normal'.exponent_of_zero positive'
    omega

end

theorem lt_iff_compare (x y : Float) :
    x < y ↔ (decode x).unpacked.compare (decode y).unpacked = some .lt := by
  rw [← unpack_eq, ← unpack_eq]
  simp [LT.lt, Float.lt, Float.Model.lt, UnpackedFloat.lt]

theorem lt_iff_place {x : Float} {place : Nat} (isPlace : (decode x).place? = some place)
    (y : Float) : x < y ↔ ∃ place', (decode y).place? = some place' ∧ place < place' := by
  rw [lt_iff_compare]
  cases found : decode x with
  | nan => simp [found, Binary.place?] at isPlace
  | infinite negative =>
    cases negative with
    | true => simp [found, Binary.place?] at isPlace
    | false =>
      simp only [found, Binary.place?, Option.some.injEq] at isPlace
      subst isPlace
      cases found' : decode y with
      | nan => simp [Binary.unpacked, Binary.place?, UnpackedFloat.compare]
      | infinite negative' =>
        cases negative' <;>
          simp [Binary.unpacked, Binary.place?, UnpackedFloat.compare, sign, compare]
      | finite negative' mantissa' exponent' =>
        have less := (normal_of_finite found').place_lt_infinite
        cases negative' <;> by_cases positive' : 0 < mantissa' <;>
          simp [Binary.unpacked, Binary.place?, UnpackedFloat.compare, sign, positive'] <;> omega
  | finite negative mantissa exponent =>
    cases negative with
    | true => simp [found, Binary.place?] at isPlace
    | false =>
      have normal := normal_of_finite found
      simp only [found, Binary.place?, Option.some.injEq] at isPlace
      subst isPlace
      cases found' : decode y with
      | nan =>
        by_cases positive : 0 < mantissa <;>
          simp [Binary.unpacked, Binary.place?, UnpackedFloat.compare, positive]
      | infinite negative' =>
        have less := normal.place_lt_infinite
        cases negative' <;> by_cases positive : 0 < mantissa <;>
          simp [Binary.unpacked, Binary.place?, UnpackedFloat.compare, sign, positive] <;> omega
      | finite negative' mantissa' exponent' =>
        have normal' := normal_of_finite found'
        cases negative' with
        | false =>
          rw [normal.compare_lt normal', ← normal.place_lt_iff normal']
          simp [Binary.place?]
        | true =>
          by_cases positive : 0 < mantissa <;> by_cases positive' : 0 < mantissa' <;>
            simp [Binary.unpacked, Binary.place?, UnpackedFloat.compare, sign, positive,
              positive']

/-! ### Dropping bits -/

def halfEven (mantissa shift : Nat) : Nat :=
  let quotient := mantissa / 2 ^ shift
  let rest := mantissa % 2 ^ shift
  if 2 * rest < 2 ^ shift then quotient
  else if 2 * rest = 2 ^ shift then quotient + quotient % 2
  else quotient + 1

theorem halfEven_mul (quotient shift : Nat) : halfEven (quotient * 2 ^ shift) shift = quotient := by
  have positive : 0 < 2 ^ shift := Nat.two_pow_pos shift
  simp [halfEven, Nat.mul_div_cancel _ positive]

theorem halfEven_mono {mantissa mantissa' : Nat} (le : mantissa ≤ mantissa') (shift : Nat) :
    halfEven mantissa shift ≤ halfEven mantissa' shift := by
  have split := Nat.div_add_mod mantissa (2 ^ shift)
  have split' := Nat.div_add_mod mantissa' (2 ^ shift)
  have quotients : mantissa / 2 ^ shift ≤ mantissa' / 2 ^ shift := Nat.div_le_div_right le
  simp only [halfEven]
  generalize 2 ^ shift = unit at *
  generalize mantissa / unit = quotient, mantissa % unit = rest,
    mantissa' / unit = quotient', mantissa' % unit = rest' at *
  rcases Nat.eq_or_lt_of_le quotients with rfl | less
  · have rests : rest ≤ rest' := by omega
    split <;> split <;> (try split) <;> (try split) <;> omega
  · split <;> split <;> (try split) <;> (try split) <;> omega

theorem halfEven_bounds {mantissa shift : Nat} (lower : hiddenBit * 2 ^ shift ≤ mantissa)
    (upper : mantissa < 2 * hiddenBit * 2 ^ shift) :
    hiddenBit ≤ halfEven mantissa shift ∧ halfEven mantissa shift ≤ 2 * hiddenBit := by
  have positive : 0 < 2 ^ shift := Nat.two_pow_pos shift
  have least : hiddenBit ≤ mantissa / 2 ^ shift := (Nat.le_div_iff_mul_le positive).mpr lower
  have most : mantissa / 2 ^ shift < 2 * hiddenBit := (Nat.div_lt_iff_lt_mul positive).mpr upper
  simp only [halfEven]
  split
  · omega
  · split <;> omega

theorem halfEven_succ (mantissa shift : Nat) :
    halfEven mantissa (shift + 1) =
      if mantissa / 2 ^ shift % 2 = 0 then mantissa / 2 ^ (shift + 1)
      else if mantissa % 2 ^ shift = 0 then
        mantissa / 2 ^ (shift + 1) + mantissa / 2 ^ (shift + 1) % 2
      else mantissa / 2 ^ (shift + 1) + 1 := by
  have least : mantissa % 2 ^ shift < 2 ^ shift := Nat.mod_lt _ (Nat.two_pow_pos shift)
  have unit : 2 ^ (shift + 1) = 2 * 2 ^ shift := Nat.pow_succ'
  have rest : mantissa % 2 ^ (shift + 1) = _ := Nat.mod_pow_succ
  simp only [halfEven]
  generalize mantissa / 2 ^ (shift + 1) = quotient
  rcases Nat.mod_two_eq_zero_or_one (mantissa / 2 ^ shift) with even | odd
  · rw [even, Nat.mul_zero] at rest
    rw [if_pos even, if_pos (by omega)]
  · rw [odd, Nat.mul_one] at rest
    have isHalf : 2 * (mantissa % 2 ^ (shift + 1)) = 2 ^ (shift + 1) ↔
        mantissa % 2 ^ shift = 0 := by
      omega
    rw [if_neg (by omega : ¬2 * (mantissa % 2 ^ (shift + 1)) < 2 ^ (shift + 1)),
      if_neg (by omega : ¬mantissa / 2 ^ shift % 2 = 0)]
    exact if_congr isHalf rfl rfl

def shifted (mantissa shift : Nat) : ExtendedMantissa :=
  ExtendedMantissa.ofMantissaAndAccuracy mantissa .exact >>> shift

theorem shifted_succ (mantissa shift : Nat) :
    shifted mantissa (shift + 1) = (shifted mantissa shift).shiftRightOne := rfl

theorem extended_mantissa (mantissa : Nat) (accuracy : Accuracy) (shift : Nat) :
    (ExtendedMantissa.ofMantissaAndAccuracy mantissa accuracy >>> shift).mantissa =
      mantissa / 2 ^ shift := by
  induction shift with
  | zero =>
    rw [Nat.pow_zero, Nat.div_one]
    rcases accuracy with _ | _ | _ | _ <;> rfl
  | succ shift ih =>
    change (ExtendedMantissa.ofMantissaAndAccuracy mantissa accuracy >>> shift).mantissa / 2 = _
    rw [ih, Nat.div_div_eq_div_mul, Nat.pow_succ]

theorem shifted_mantissa (mantissa shift : Nat) :
    (shifted mantissa shift).mantissa = mantissa / 2 ^ shift := extended_mantissa mantissa .exact shift

theorem roundedMantissa_bounds (extended : ExtendedMantissa) :
    extended.mantissa ≤ extended.roundedMantissa ∧
      extended.roundedMantissa ≤ extended.mantissa + 1 := by
  obtain ⟨mantissa, _ | _, _ | _⟩ := extended <;>
    simp only [ExtendedMantissa.roundedMantissa, ExtendedMantissa.accuracy,
      Accuracy.roundToNearestEven] <;> omega

theorem shifted_residue (mantissa shift : Nat) :
    ((shifted mantissa shift).roundBit || (shifted mantissa shift).stickyBit) =
      decide (mantissa % 2 ^ shift ≠ 0) := by
  induction shift with
  | zero =>
    rw [Nat.pow_zero, Nat.mod_one]
    rfl
  | succ shift ih =>
    rw [shifted_succ, ExtendedMantissa.shiftRightOne, ih, shifted_mantissa]
    simp only [Nat.mod_pow_succ]
    rcases Nat.mod_two_eq_zero_or_one (mantissa / 2 ^ shift) with last | last <;> simp [last]

theorem shifted_roundedMantissa (mantissa shift : Nat) :
    (shifted mantissa shift).roundedMantissa = halfEven mantissa shift := by
  cases shift with
  | zero =>
    have exact := halfEven_mul mantissa 0
    rw [Nat.pow_zero, Nat.mul_one] at exact
    exact exact.symm
  | succ shift =>
    have quotient := shifted_mantissa mantissa (shift + 1)
    rw [shifted_succ] at quotient ⊢
    rw [halfEven_succ, ExtendedMantissa.roundedMantissa, quotient, ExtendedMantissa.shiftRightOne,
      shifted_residue, shifted_mantissa]
    rcases Nat.mod_two_eq_zero_or_one (mantissa / 2 ^ shift) with last | last <;>
      by_cases isZero : mantissa % 2 ^ shift = 0 <;>
      simp [last, isZero, ExtendedMantissa.accuracy, Accuracy.roundToNearestEven]

/-! ### Rounding -/

theorem log2_mul_two_pow {n : Nat} (isPositive : n ≠ 0) (shift : Nat) :
    (n * 2 ^ shift).log2 = n.log2 + shift := by
  induction shift with
  | zero => rw [Nat.pow_zero, Nat.mul_one, Nat.add_zero]
  | succ shift ih =>
    have isPositive : n * 2 ^ shift ≠ 0 :=
      Nat.mul_ne_zero isPositive (Nat.two_pow_pos shift).ne'
    rw [Nat.pow_succ', Nat.mul_left_comm, Nat.log2_two_mul isPositive, ih, Nat.add_assoc]

theorem shiftToTargetExponent_eq {mantissa shift : Nat} {exponent : Int}
    (size : mantissa.log2 = 52 + shift) (least : leastExponent ≤ exponent + shift)
    (accuracy : Accuracy) :
    shiftToTargetExponent Format.binary64 mantissa exponent accuracy =
      (ExtendedMantissa.ofMantissaAndAccuracy mantissa accuracy >>> shift, exponent + shift) := by
  have target : Format.binary64.targetExponent (totalExponent mantissa exponent) =
      exponent + shift := by
    simp only [Format.targetExponent, totalExponent, Format.mantissaBits, Format.minExponent, size,
      leastExponent] at *
    omega
  have amount : (exponent + shift - exponent).toNat = shift := by omega
  simp only [shiftToTargetExponent, target, shiftToExponent, amount]

theorem carry_eq {rounded : Nat} {exponent : Int} (lower : hiddenBit ≤ rounded)
    (upper : rounded ≤ 2 * hiddenBit) (least : leastExponent ≤ exponent) :
    ∃ final place, shiftToTargetExponent Format.binary64 rounded exponent .exact = (final, place) ∧
      hiddenBit ≤ final.mantissa ∧ final.mantissa < 2 * hiddenBit ∧ leastExponent ≤ place ∧
      place * hiddenBit + final.mantissa = exponent * hiddenBit + rounded := by
  rcases Nat.lt_or_eq_of_le upper with less | rfl
  · have size : rounded.log2 = 52 + 0 := by
      rw [Nat.log2_eq_iff (by simp only [hiddenBit] at *; omega)]
      simp only [hiddenBit] at *
      omega
    refine ⟨_, _, shiftToTargetExponent_eq size (by omega) .exact, ?_⟩
    rw [extended_mantissa, Nat.pow_zero, Nat.div_one]
    exact ⟨lower, less, by omega, by simp⟩
  · have size : (2 * hiddenBit).log2 = 52 + 1 := by
      rw [Nat.log2_eq_iff (by decide)]
      decide
    refine ⟨_, _, shiftToTargetExponent_eq size (by omega) .exact, ?_⟩
    rw [extended_mantissa, show 2 * hiddenBit / 2 ^ 1 = hiddenBit from rfl]
    refine ⟨Nat.le_refl _, by decide, by omega, ?_⟩
    push_cast
    ring

theorem extended_bounds {mantissa shift : Nat} (size : mantissa.log2 = 52 + shift)
    (accuracy : Accuracy) :
    let extended := ExtendedMantissa.ofMantissaAndAccuracy mantissa accuracy >>> shift
    hiddenBit ≤ extended.roundedMantissa ∧ extended.roundedMantissa ≤ 2 * hiddenBit := by
  intro extended
  have isPositive : mantissa ≠ 0 := by
    rintro rfl
    rw [Nat.log2_zero] at size
    omega
  have lower : hiddenBit ≤ mantissa / 2 ^ shift := by
    rw [Nat.le_div_iff_mul_le (Nat.two_pow_pos shift), show hiddenBit = 2 ^ 52 from rfl, ← Nat.pow_add,
      ← size]
    exact Nat.log2_self_le isPositive
  have upper : mantissa / 2 ^ shift < 2 * hiddenBit := by
    rw [Nat.div_lt_iff_lt_mul (Nat.two_pow_pos shift), show 2 * hiddenBit = 2 ^ 53 from rfl,
      ← Nat.pow_add, show 53 + shift = mantissa.log2 + 1 by omega]
    exact Nat.lt_log2_self
  have bounds := roundedMantissa_bounds extended
  rw [extended_mantissa] at bounds
  exact ⟨Nat.le_trans lower bounds.1, Nat.le_trans bounds.2 upper⟩

theorem roundWithAccuracy_eq {mantissa shift : Nat} {exponent : Int}
    (size : mantissa.log2 = 52 + shift) (least : leastExponent ≤ exponent + shift) (sign : Sign)
    (accuracy : Accuracy) :
    ∃ rounded place positive, roundWithAccuracy Format.binary64 sign mantissa exponent accuracy =
        .finite sign rounded place positive ∧
      hiddenBit ≤ rounded ∧ rounded < 2 * hiddenBit ∧ leastExponent ≤ place ∧
      place * hiddenBit + rounded = (exponent + shift) * hiddenBit +
        (ExtendedMantissa.ofMantissaAndAccuracy mantissa accuracy >>> shift).roundedMantissa := by
  have bounds := extended_bounds size accuracy
  obtain ⟨final, place, carried, lower, upper, leastPlace, same⟩ := carry_eq bounds.1 bounds.2 least
  have isFinite : final.mantissa ≠ 0 := by
    have : 0 < hiddenBit := by decide
    omega
  refine ⟨final.mantissa, place, Nat.pos_of_ne_zero isFinite, ?_, lower, upper, leastPlace, same⟩
  simp only [roundWithAccuracy, shiftToTargetExponent_eq size least, carried]
  rw [dif_neg isFinite]

theorem roundWithAccuracy_exact {mantissa shift : Nat} {exponent : Int} (lower : hiddenBit ≤ mantissa)
    (upper : mantissa < 2 * hiddenBit) (least : leastExponent ≤ exponent + shift) (sign : Sign) :
    roundWithAccuracy Format.binary64 sign (mantissa * 2 ^ shift) exponent .exact =
      .finite sign mantissa (exponent + shift) (Nat.lt_of_lt_of_le (by decide) lower) := by
  have isPositive : mantissa ≠ 0 := by
    simp only [hiddenBit] at lower
    omega
  have size : (mantissa * 2 ^ shift).log2 = 52 + shift := by
    rw [log2_mul_two_pow isPositive, (Nat.log2_eq_iff isPositive).mpr]
    simp only [hiddenBit] at lower upper
    omega
  obtain ⟨rounded, place, positive, isRounded, lower', upper', -, isPlace⟩ :=
    roundWithAccuracy_eq size least sign .exact
  have exact : (ExtendedMantissa.ofMantissaAndAccuracy (mantissa * 2 ^ shift) .exact >>> shift).roundedMantissa =
      mantissa := (shifted_roundedMantissa _ shift).trans (halfEven_mul mantissa shift)
  have same : place = exponent + shift ∧ rounded = mantissa := by
    rw [exact] at isPlace
    simp only [hiddenBit] at *
    omega
  obtain ⟨rfl, rfl⟩ := same
  exact isRounded

/-! ### Packing -/

theorem toNat_packComponents (negative : Bool) (exponent : BitVec 11) (mantissa : BitVec 52) :
    (packComponents Format.binary64 (sign negative) exponent mantissa).toNat =
      (if negative then signBit else 0) + exponent.toNat * hiddenBit + mantissa.toNat := by
  rw [packComponents, BitVec.toNat_append, ← Nat.shiftLeft_add_eq_or_of_lt mantissa.isLt,
    BitVec.toNat_append, ← Nat.shiftLeft_add_eq_or_of_lt exponent.isLt]
  cases negative with
  | false => simp [sign, Sign.toBitVec, Nat.shiftLeft_eq, hiddenBit]
  | true =>
    simp [sign, Sign.toBitVec, Nat.shiftLeft_eq, hiddenBit, signBit]
    omega

theorem decode_of_toBits {x : Float} {negative : Bool} {mantissa : Nat} {exponent : Int}
    (bits : x.toBits.toNat = (if negative then signBit else 0) +
      (exponent + 1075).toNat * hiddenBit + (mantissa - hiddenBit))
    (lower : hiddenBit ≤ mantissa) (upper : mantissa < 2 * hiddenBit)
    (least : leastExponent ≤ exponent) (greatest : exponent ≤ 971) :
    decode x = .finite negative mantissa exponent := by
  simp only [leastExponent] at least
  have signed : decide (signBit ≤ x.toBits.toNat) = negative := by
    rw [bits]
    cases negative <;> simp only [hiddenBit, signBit, if_true, Bool.false_eq_true, if_false,
      decide_eq_true_eq, decide_eq_false_iff_not] at * <;> omega
  have rest : x.toBits.toNat % hiddenBit = mantissa - hiddenBit := by
    rw [bits]
    cases negative <;> simp only [hiddenBit, signBit, if_true, Bool.false_eq_true, if_false] at * <;>
      omega
  have quotient : x.toBits.toNat / hiddenBit % 2048 = (exponent + 1075).toNat := by
    rw [bits]
    cases negative <;> simp only [hiddenBit, signBit, if_true, Bool.false_eq_true, if_false] at * <;>
      omega
  simp only [decode, quotient, rest, signed]
  rw [if_neg (by omega), if_neg (by omega), Nat.add_sub_cancel' lower,
    show (((exponent + 1075).toNat : Nat) : Int) - 1075 = exponent by omega]

section

variable {mantissa : Nat} (positive : 0 < mantissa) (exponent : Int)

def packed : Float := Float.ofModel (Float.Model.pack (.finite .positive mantissa exponent positive))

theorem toBits_packed : (packed positive exponent).toBits.toNat =
    (UnpackedFloat.pack Format.binary64 (.finite .positive mantissa exponent positive)).toNat := rfl

theorem biased_eq :
    (exponent + Format.binary64.exponentBias + (52 : Nat)).toNat = (exponent + 1075).toNat := by
  rw [show (Format.binary64.exponentBias : Int) = 1023 from rfl]
  omega

variable {exponent}

theorem decode_pack (negative : Bool) (lower : hiddenBit ≤ mantissa) (upper : mantissa < 2 * hiddenBit)
    (least : leastExponent ≤ exponent) (greatest : exponent ≤ 971) :
    decode (Float.ofModel (Float.Model.pack (.finite (sign negative) mantissa exponent positive))) =
      .finite negative mantissa exponent := by
  have size : mantissa.log2 + 1 = Format.binary64.mantissaBits := by
    have size : mantissa.log2 = 52 := by
      rw [Nat.log2_eq_iff (by omega)]
      simp only [hiddenBit] at lower upper
      omega
    rw [size]
    rfl
  have room : ¬2 ^ 11 ≤ (exponent + 1075).toNat + 1 := by
    simp only [leastExponent] at least
    omega
  have fits : (exponent + 1075).toNat % 2 ^ 11 = (exponent + 1075).toNat :=
    Nat.mod_eq_of_lt (by omega)
  have rest : mantissa % 2 ^ 52 = mantissa - hiddenBit := by
    simp only [hiddenBit] at *
    omega
  refine decode_of_toBits ?_ lower upper least greatest
  change (UnpackedFloat.pack Format.binary64 _).toNat = _
  rw [UnpackedFloat.pack]
  simp only [biased_eq]
  rw [if_neg room, if_pos size, toNat_packComponents, BitVec.toNat_ofNat, BitVec.toNat_ofNat, fits,
    rest]

theorem decode_packed (lower : hiddenBit ≤ mantissa) (upper : mantissa < 2 * hiddenBit)
    (least : leastExponent ≤ exponent) (greatest : exponent ≤ 971) :
    decode (packed positive exponent) = .finite false mantissa exponent :=
  decode_pack positive false lower upper least greatest

theorem decode_packed_infinite (greatest : 971 < exponent) :
    decode (packed positive exponent) = .infinite false := by
  have full : 2 ^ 11 ≤ (exponent + 1075).toNat + 1 := by omega
  have bits : (packed positive exponent).toBits.toNat = 2047 * hiddenBit := by
    rw [toBits_packed, UnpackedFloat.pack]
    simp only [biased_eq]
    rw [if_pos full]
    rfl
  rw [decode, bits]
  rfl

theorem place_packed (lower : hiddenBit ≤ mantissa) (upper : mantissa < 2 * hiddenBit)
    (least : leastExponent ≤ exponent) :
    (decode (packed positive exponent)).place? =
      some (min (2047 * hiddenBit) ((exponent - leastExponent).toNat * hiddenBit + mantissa)) := by
  by_cases greatest : exponent ≤ 971
  · rw [decode_packed positive lower upper least greatest, Binary.place?, Nat.min_eq_right]
    simp only [hiddenBit, leastExponent] at *
    omega
  · rw [decode_packed_infinite positive (by omega), Binary.place?, Nat.min_eq_left]
    simp only [hiddenBit, leastExponent] at *
    omega

end

/-! ### Natural numbers -/

def roundedPlace (n : Nat) : Nat :=
  if n = 0 then 0
  else min (2047 * hiddenBit) ((n.log2 + 1022) * hiddenBit + halfEven (n * 2 ^ 53) (n.log2 + 1))

theorem roundedPlace_bounds {n : Nat} (isPositive : n ≠ 0) :
    hiddenBit ≤ halfEven (n * 2 ^ 53) (n.log2 + 1) ∧
      halfEven (n * 2 ^ 53) (n.log2 + 1) ≤ 2 * hiddenBit := by
  have lower := Nat.log2_self_le isPositive
  have upper := @Nat.lt_log2_self n
  apply halfEven_bounds
  · rw [Nat.pow_succ, show hiddenBit = 2 ^ 52 from rfl]
    omega
  · rw [show 2 * hiddenBit = 2 ^ 53 from rfl]
    omega

theorem roundedPlace_mono {n n' : Nat} (le : n ≤ n') : roundedPlace n ≤ roundedPlace n' := by
  by_cases isZero : n = 0
  · rw [roundedPlace, if_pos isZero]
    exact Nat.zero_le _
  have isPositive : n' ≠ 0 := by omega
  have lower := (roundedPlace_bounds isPositive).1
  have upper := (roundedPlace_bounds isZero).2
  have sizes : n.log2 ≤ n'.log2 := by
    rw [Nat.le_log2 isPositive]
    exact Nat.le_trans (Nat.log2_self_le isZero) le
  rw [roundedPlace, roundedPlace, if_neg isZero, if_neg isPositive]
  rcases Nat.lt_or_eq_of_le sizes with less | same
  · simp only [hiddenBit] at *
    omega
  · have rounded := halfEven_mono (Nat.mul_le_mul_right (2 ^ 53) le) (n.log2 + 1)
    rw [← same]
    simp only [hiddenBit] at *
    omega

theorem place_rounded {n : Nat} (isPositive : n ≠ 0) {mantissa shift : Nat} {exponent : Int}
    (size : mantissa.log2 = 52 + shift) (aligned : exponent + shift = n.log2 - 52)
    (same : halfEven mantissa shift = halfEven (n * 2 ^ 53) (n.log2 + 1)) :
    (decode (Float.ofModel (Float.Model.pack
      (roundWithAccuracy Format.binary64 .positive mantissa exponent .exact)))).place? =
      some (roundedPlace n) := by
  have least : leastExponent ≤ exponent + shift := by
    simp only [leastExponent]
    omega
  obtain ⟨rounded, place, positive, isRounded, lower, upper, least, isPlace⟩ :=
    roundWithAccuracy_eq size least .positive .exact
  have isPlace : place * hiddenBit + rounded = (exponent + shift) * hiddenBit + halfEven mantissa shift := by
    rw [isPlace, ← shifted_roundedMantissa]
    rfl
  have here : (place - leastExponent).toNat * hiddenBit + rounded =
      (n.log2 + 1022) * hiddenBit + halfEven mantissa shift := by
    simp only [hiddenBit, leastExponent] at isPlace least ⊢
    omega
  rw [isRounded]
  refine (place_packed positive lower upper least).trans ?_
  rw [roundedPlace, if_neg isPositive, ← same, here]

theorem ofScientific_eq {n : Nat} (isPositive : n ≠ 0) :
    UnpackedFloat.ofScientific Format.binary64 n 0 =
      roundWithAccuracy Format.binary64 .positive (n <<< 53 * 10 ^ 0) (-53 + 0) .exact := by
  rw [UnpackedFloat.ofScientific, dif_neg isPositive, if_neg (by decide), if_neg (by simp),
    if_pos (by decide)]
  rfl

theorem unpack_toFloat {n : Nat} (isPositive : n ≠ 0) (small : n < 2 ^ 53) :
    ∃ mantissa exponent positive,
      n.toUInt64.toFloat.toModel.unpack = .finite .positive mantissa exponent positive ∧
      mantissa = n * 2 ^ (52 - n.log2) ∧ exponent = n.log2 - 52 := by
  have size : n.log2 < 53 := (Nat.log2_lt isPositive).mpr small
  have whole : n.toUInt64.toNat = n := by
    rw [Nat.toUInt64, UInt64.toNat_ofNat']
    omega
  have target : Format.binary64.targetExponent (totalExponent n 0) = n.log2 - 52 := by
    simp only [Format.targetExponent, totalExponent, Format.mantissaBits, Format.minExponent]
    omega
  have amount : (0 - ((n.log2 : Int) - 52)).toNat = 52 - n.log2 := by omega
  have isRound : UnpackedFloat.ofUInt64 Format.binary64 n.toUInt64 =
      roundWithAccuracy Format.binary64 .positive (n * 2 ^ (52 - n.log2)) (0 - (52 - n.log2 : Nat))
        .exact := by
    rw [UnpackedFloat.ofUInt64, UnpackedFloat.ofNat, UnpackedFloat.ofInt, UnpackedFloat.normalize,
      whole, show compare (n : Int) 0 = .gt from Int.compare_eq_gt.mpr (by omega)]
    simp only [UnpackedFloat.round, Int.toNat_natCast, target, decreaseExponent, amount,
      Nat.shiftLeft_eq]
  have bounds : hiddenBit ≤ n * 2 ^ (52 - n.log2) ∧ n * 2 ^ (52 - n.log2) < 2 * hiddenBit := by
    have isPositive : n * 2 ^ (52 - n.log2) ≠ 0 := Nat.mul_ne_zero isPositive (Nat.two_pow_pos _).ne'
    have size : (n * 2 ^ (52 - n.log2)).log2 = 52 := by
      rw [log2_mul_two_pow ‹_›]
      omega
    rwa [Nat.log2_eq_iff isPositive] at size
  have least : leastExponent ≤ 0 - (52 - n.log2 : Nat) + (0 : Nat) := by
    simp only [leastExponent]
    omega
  have isRounded := roundWithAccuracy_exact bounds.1 bounds.2 least .positive
  rw [Nat.pow_zero, Nat.mul_one] at isRounded
  have isPacked : n.toUInt64.toFloat = packed _ _ :=
    congrArg (fun unpacked => Float.ofModel (Float.Model.pack unpacked)) (isRound.trans isRounded)
  refine ⟨n * 2 ^ (52 - n.log2), 0 - (52 - n.log2 : Nat) + (0 : Nat),
    Nat.lt_of_lt_of_le (by decide) bounds.1, ?_, rfl, by omega⟩
  rw [isPacked, unpack_eq, decode_packed _ bounds.1 bounds.2 least (by omega), Binary.unpacked,
    dif_pos (Nat.lt_of_lt_of_le (by decide) bounds.1)]
  rfl

theorem unpack_one : (Float.ofBits 0x3FF0000000000000).toModel.unpack =
    .finite .positive (2 ^ 52) (-52) (by decide) := rfl

theorem mul_eq (x y : Float) :
    x * y = Float.ofModel (Float.Model.pack
      (mul Format.binary64 x.toModel.unpack y.toModel.unpack)) := rfl

theorem mul_finite {mantissa mantissa' : Nat} {exponent exponent' : Int} (positive : 0 < mantissa)
    (positive' : 0 < mantissa') :
    mul Format.binary64 (.finite .positive mantissa exponent positive)
        (.finite .positive mantissa' exponent' positive') =
      roundWithAccuracy Format.binary64 .positive (mantissa * mantissa') (exponent + exponent')
        .exact := rfl

theorem place_ofNat (n : Nat) : (decode (Float.ofNat n)).place? = some (roundedPlace n) := by
  by_cases isZero : n = 0
  · subst isZero
    rfl
  by_cases small : n < 2 ^ 53
  · obtain ⟨mantissa, exponent, positive, unpacked, isMantissa, isExponent⟩ :=
      unpack_toFloat isZero small
    have size : n.log2 < 53 := (Nat.log2_lt isZero).mpr small
    have length : (mantissa * 2 ^ 52).log2 = 52 + 52 := by
      rw [log2_mul_two_pow positive.ne', isMantissa, log2_mul_two_pow isZero]
      omega
    have split : n * 2 ^ 53 = n * 2 ^ (52 - n.log2) * 2 ^ (n.log2 + 1) := by
      rw [Nat.mul_assoc, ← Nat.pow_add, show 52 - n.log2 + (n.log2 + 1) = 53 by omega]
    have isProduct : Float.ofNat n = n.toUInt64.toFloat * Float.ofBits 0x3FF0000000000000 := by
      rw [Float.ofNat]
      exact dif_pos ⟨small, Nat.zero_le _⟩
    rw [isProduct, mul_eq, unpacked, unpack_one, mul_finite]
    refine place_rounded isZero length (by omega) ?_
    rw [halfEven_mul, isMantissa, split, halfEven_mul]
  · have length : (n <<< 53 * 10 ^ 0).log2 = 52 + (n.log2 + 1) := by
      rw [Nat.pow_zero, Nat.mul_one, Nat.shiftLeft_eq, log2_mul_two_pow isZero]
      omega
    have isScientific : Float.ofNat n = Float.ofModel (Float.Model.ofScientific n 0) := by
      rw [Float.ofNat]
      exact dif_neg fun fits => small fits.1
    rw [isScientific, Float.Model.ofScientific, ofScientific_eq isZero]
    refine place_rounded isZero length (by omega) ?_
    rw [Nat.pow_zero, Nat.mul_one, Nat.shiftLeft_eq]

theorem ofNat_lt {n n' : Nat} (le : n ≤ n') {x : Float} (above : Float.ofNat n' < x) :
    Float.ofNat n < x := by
  obtain ⟨place, isPlace, less⟩ := (lt_iff_place (place_ofNat n') x).mp above
  have later := Nat.lt_of_le_of_lt (roundedPlace_mono le) less
  exact (lt_iff_place (place_ofNat n) x).mpr ⟨place, isPlace, later⟩

end LetChain.Number
