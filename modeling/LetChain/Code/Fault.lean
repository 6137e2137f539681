/-! References into a program that lead nowhere. Code that the compiler makes has none; code written
by hand may. -/

namespace LetChain

inductive Fault where
  | unmarkedLabel (label : Nat)
  | unknownLabel (label : Nat)
  | unknownRoutine (index : Nat)
  | unknownRecord (index : Nat)
  | unknownField (index : Nat)
  | unknownSymbol (index : Nat)
  deriving DecidableEq

/-- What stops some work: an error that it can report, or a fault in what it was given. -/
inductive Halt (ε : Type) where
  | error (error : ε)
  | fault (fault : Fault)

def Halt.map {ε ε' : Type} (f : ε → ε') : Halt ε → Halt ε'
  | error e => error (f e)
  | fault why => fault why

end LetChain
