import LetChain.Number.Shortest

/-! Numbers as text: the shortest digits that read back, always in positional notation. -/

namespace LetChain.Number

def zeros (count : Nat) : String := String.ofList (List.replicate count '0')

def Decimal.positional (d : Decimal) : String :=
  let digits := Nat.repr d.digits
  if 0 ≤ d.exponent then digits ++ zeros d.exponent.toNat
  else
    let places := (-d.exponent).toNat
    let cs := digits.toList
    if places < cs.length then
      String.ofList (cs.take (cs.length - places) ++ '.' :: cs.drop (cs.length - places))
    else "0." ++ zeros (places - cs.length) ++ digits

def text (x : Float) : String :=
  match decode x with
  | .nan => "NaN"
  | .infinite negative => if negative then "-inf" else "inf"
  | .finite negative mantissa exponent =>
    let magnitude := if mantissa = 0 then "0" else (shortest mantissa exponent).positional
    if negative then "-" ++ magnitude else magnitude

/-- The number nearest to `mantissa * 10 ^ exponent`. Powers beyond the range of numbers are not
computed. -/
def ofDecimal (mantissa : Nat) (exponent : Int) : Float :=
  let size : Int := (Nat.repr mantissa).length
  if mantissa = 0 then 0.0
  else if 310 < size + exponent then infinity
  else if size + exponent < -330 then 0.0
  else Float.ofScientific mantissa (exponent < 0) exponent.natAbs

def digitsValue (digits : List Char) : Nat :=
  digits.foldl (fun n c => 10 * n + (c.toNat - '0'.toNat)) 0

def readExponent? : List Char → Option Int
  | [] => some 0
  | mark :: rest =>
    let (negative, digits) :=
      match rest with
      | '-' :: digits => (true, digits)
      | '+' :: digits => (false, digits)
      | digits => (false, digits)
    if (mark == 'e' || mark == 'E') && !digits.isEmpty && digits.all Char.isDigit then
      some (if negative then -(digitsValue digits) else digitsValue digits)
    else none

def readMagnitude? (cs : List Char) : Option Float :=
  let whole := cs.takeWhile Char.isDigit
  let rest := cs.dropWhile Char.isDigit
  let (fraction, rest) :=
    match rest with
    | '.' :: rest => (rest.takeWhile Char.isDigit, rest.dropWhile Char.isDigit)
    | rest => ([], rest)
  if whole.isEmpty && fraction.isEmpty then
    match String.ofList (cs.map Char.toLower) with
    | "nan" => some notANumber
    | "inf" => some infinity
    | "infinity" => some infinity
    | _ => none
  else
    (readExponent? rest).map fun exponent =>
      ofDecimal (digitsValue (whole ++ fraction)) (exponent - fraction.length)

def read? (source : String) : Option Float :=
  match source.toList with
  | '-' :: rest => (readMagnitude? rest).map fun x => -x
  | '+' :: rest => readMagnitude? rest
  | cs => readMagnitude? cs

end LetChain.Number
