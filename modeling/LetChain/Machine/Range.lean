import LetChain.Machine.Error
import LetChain.Machine.Value
import LetChain.Number.Remainder

/-! Sequences of evenly spaced numbers. -/

namespace LetChain.Range

/-- The element at an index. Each is computed on its own, because adding a small step again and again
may not move a large number. -/
def element (first step : Float) (ascending : Bool) (index : Nat) : Float :=
  let offset := Float.ofNat index * step
  if ascending then first + offset else first - offset

def elements (first limit step : Float) (ascending : Bool) :
    Nat → Nat → Array Value → List Value
  | 0, _, done => done.toList
  | count + 1, index, done =>
    let value := element first step ascending index
    if (if ascending then value < limit else limit < value) then
      elements first limit step ascending count (index + 1) (done.push (.number value))
    else done.toList

def generate (first limit step : Float) (maxLength : Nat) : Except RuntimeError (List Value) :=
  if !step.isFinite || step ≤ 0 then .error (.invalidStep step)
  else
    let span := (limit - first).abs / step
    if !span.isFinite || Float.ofNat maxLength < span then .error (.rangeTooLarge maxLength)
    else .ok (elements first limit step (first ≤ limit) (Number.ceiling span) 0 #[])

end LetChain.Range
