/-! The exact value of a 64-bit floating-point number. -/

namespace LetChain.Number

inductive Binary where
  | nan
  | infinite (negative : Bool)
  | finite (negative : Bool) (mantissa : Nat) (exponent : Int)

def hiddenBit : Nat := 4503599627370496

def signBit : Nat := 9223372036854775808

def leastExponent : Int := -1074

def decode (x : Float) : Binary :=
  let bits := x.toBits.toNat
  let negative : Bool := signBit ≤ bits
  let biased : Nat := bits / hiddenBit % 2048
  let fraction : Nat := bits % hiddenBit
  if biased = 2047 then if fraction = 0 then .infinite negative else .nan
  else if biased = 0 then .finite negative fraction leastExponent
  else .finite negative (hiddenBit + fraction) ((biased : Int) - 1075)

/-- The number `mantissa * 2 ^ exponent`, for a mantissa below 2^53 and an exponent from
`leastExponent` up to the largest that the bits hold. -/
def encode (negative : Bool) (mantissa : Nat) (exponent : Int) : Float :=
  let room := (exponent - leastExponent).toNat
  let shift := if mantissa = 0 then 0 else min room (52 - mantissa.log2)
  let scaled := mantissa <<< shift
  let biased := if scaled < hiddenBit then 0 else (exponent - shift + 1075).toNat
  let magnitude := biased * hiddenBit + scaled % hiddenBit
  Float.ofBits (UInt64.ofNat (if negative then signBit + magnitude else magnitude))

def notANumber : Float := Float.ofBits 0x7ff8000000000000

def infinity : Float := Float.ofBits 0x7ff0000000000000

end LetChain.Number
