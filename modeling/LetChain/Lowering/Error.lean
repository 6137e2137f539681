import LetChain.Typing.Ty

/-! Why a typed module has no stack code. -/

namespace LetChain

inductive LowerError where
  | noEquality (ty : Ty)
  | missingEntryPoint
  | entryPointParameters (count : Nat)
  | misplacedSelfAssignment
  | unresolved (name : String)
  | tooMany (what : String)
  deriving DecidableEq

def LowerError.message : LowerError → String
  | noEquality ty => s!"no equality instruction for type {ty.text}"
  | missingEntryPoint => "no top-level function Main"
  | entryPointParameters count => s!"Main must take no parameters, but takes {count}"
  | misplacedSelfAssignment =>
    "an if without else or a foreach can only be lowered as a let body"
  | unresolved name => s!"{name} has no storage in the current function"
  | tooMany what => s!"too many {what}"

end LetChain
