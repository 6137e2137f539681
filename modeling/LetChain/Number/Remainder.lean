import LetChain.Number.Binary

/-! Arithmetic on numbers beyond the four operations, computed on exact values. -/

namespace LetChain.Number

/-- What is left of `a` after taking away `b` as often as it fits, toward zero. The result is exact
and has the sign of `a`. -/
def remainder (a b : Float) : Float :=
  match decode a, decode b with
  | .finite negative m p, .finite _ n q =>
    if n = 0 then notANumber
    else
      let common := min p q
      let left := m <<< (p - common).toNat
      let unit := n <<< (q - common).toNat
      encode negative (left % unit) common
  | .finite .., .infinite _ => a
  | _, _ => notANumber

def ceiling (x : Float) : Nat :=
  let floor := x.toUInt64
  if floor.toFloat < x then floor.toNat + 1 else floor.toNat

end LetChain.Number
