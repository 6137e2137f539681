import LetChain.Code.Fault
import LetChain.Number.Notation

/-! Why a run stops without a result. -/

namespace LetChain

inductive RuntimeError where
  | stackUnderflow (routine : String)
  | stackOverflow (limit : Nat)
  | typeMismatch (instr expected actual : String)
  | unboxed (instr actual : String)
  | callDepthExceeded (limit : Nat)
  | rangeTooLarge (limit : Nat)
  | invalidStep (step : Float)
  | uninitializedLocal (slot : Nat)
  | iteratorNotAcquired (slot : Nat)
  | outOfBounds (what : String) (index : Nat) (routine : String)
  | output

def RuntimeError.message : RuntimeError → String
  | stackUnderflow routine => s!"operand stack underflow in {routine}"
  | stackOverflow limit => s!"operand stack exceeded {limit} values"
  | typeMismatch instr expected actual => s!"{instr} expected a {expected}, but got a {actual}"
  | unboxed instr actual =>
    s!"{instr} expected a string or boxed operand, but got an unboxed {actual}"
  | callDepthExceeded limit => s!"call depth exceeded {limit}"
  | rangeTooLarge limit => s!"range would hold more than {limit} elements"
  | invalidStep step => s!"range step must be positive and finite, but is {Number.text step}"
  | uninitializedLocal slot => s!"local slot {slot} read before being written"
  | iteratorNotAcquired slot => s!"iterator slot {slot} advanced before being acquired"
  | outOfBounds what index routine => s!"{what} {index} is out of bounds in {routine}"
  | output => "failed to write output"

end LetChain
