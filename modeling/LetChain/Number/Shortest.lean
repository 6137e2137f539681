import LetChain.Number.Binary

/-! The decimal with the fewest digits among those that read back as a given number. -/

namespace LetChain.Number

structure Fraction where
  numerator : Nat
  denominator : Nat

namespace Fraction

def le (a b : Fraction) : Bool := a.numerator * b.denominator ≤ b.numerator * a.denominator

def lt (a b : Fraction) : Bool := a.numerator * b.denominator < b.numerator * a.denominator

def scaled (mantissa base : Nat) (exponent : Int) : Fraction :=
  if 0 ≤ exponent then ⟨mantissa * Nat.pow base exponent.toNat, 1⟩
  else ⟨mantissa, Nat.pow base (-exponent).toNat⟩

end Fraction

structure Decimal where
  digits : Nat
  exponent : Int

structure Neighbourhood where
  low : Fraction
  high : Fraction
  closed : Bool

/-- A number rounds from half way to its two neighbours; below a power of two the lower neighbour
is half as far. The ends belong to the even mantissa. -/
def neighbourhood (mantissa : Nat) (exponent : Int) : Neighbourhood where
  low :=
    if mantissa = hiddenBit ∧ leastExponent < exponent then
      Fraction.scaled (4 * mantissa - 1) 2 (exponent - 2)
    else Fraction.scaled (2 * mantissa - 1) 2 (exponent - 1)
  high := Fraction.scaled (2 * mantissa + 1) 2 (exponent - 1)
  closed := mantissa % 2 = 0

def Neighbourhood.contains (around : Neighbourhood) (x : Fraction) : Bool :=
  if around.closed then around.low.le x && x.le around.high
  else around.low.lt x && x.lt around.high

/-- The largest `e` with `10 ^ e ≤ x`, searched downward from a bound given by the size in bits. -/
def orderOfMagnitude (mantissa : Nat) (exponent : Int) : Int :=
  let x := Fraction.scaled mantissa 2 exponent
  let guess := ((mantissa.log2 + exponent + 1) * 30103) / 100000 + 1
  let fits := fun e : Int => (Fraction.scaled 1 10 e).le x
  if fits guess then guess
  else if fits (guess - 1) then guess - 1
  else if fits (guess - 2) then guess - 2
  else guess - 3

/-- The better of the two decimals around `x` on the grid of multiples of `10 ^ exponent`, if one
of them reads back. Of two the nearer is better, and the upper one at equal distance. -/
def onGrid? (around : Neighbourhood) (x : Fraction) (exponent : Int) : Option Decimal :=
  let unit := Fraction.scaled 1 10 exponent
  let scaledNumerator := x.numerator * unit.denominator
  let scaledDenominator := x.denominator * unit.numerator
  let below := scaledNumerator / scaledDenominator
  let above := below + 1
  let belowReads := around.contains (Fraction.scaled below 10 exponent)
  let aboveReads := around.contains (Fraction.scaled above 10 exponent)
  let nearerBelow := 2 * (scaledNumerator % scaledDenominator) < scaledDenominator
  if belowReads && (nearerBelow || !aboveReads) then some ⟨below, exponent⟩
  else if aboveReads then some ⟨above, exponent⟩
  else none

def searchGrids (around : Neighbourhood) (x : Fraction) (magnitude : Int) : Nat → Nat → Decimal
  | _, 0 => ⟨0, 0⟩
  | count, tries + 1 =>
    match onGrid? around x (magnitude - count) with
    | some found =>
      if found.digits = Nat.pow 10 (count + 1) then ⟨1, magnitude + 1⟩ else found
    | none => searchGrids around x magnitude (count + 1) tries

/-- The shortest decimal of the number `mantissa * 2 ^ exponent`; seventeen digits always do. -/
def shortest (mantissa : Nat) (exponent : Int) : Decimal :=
  searchGrids (neighbourhood mantissa exponent) (Fraction.scaled mantissa 2 exponent)
    (orderOfMagnitude mantissa exponent) 0 18

end LetChain.Number
