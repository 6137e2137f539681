/-! Binary operators and how tightly they bind. -/

namespace LetChain

inductive Operator where
  | or | and | eq | ne | greater | less | concat | add | sub | mul | div | rem
  deriving DecidableEq

namespace Operator

def precedence : Operator → Nat
  | or => 1
  | and => 2
  | eq | ne => 3
  | greater | less => 4
  | concat => 5
  | add | sub => 6
  | mul | div | rem => 7

def symbol : Operator → String
  | or => "or"
  | and => "and"
  | eq => "=="
  | ne => "!="
  | greater => ">"
  | less => "<"
  | concat => ".."
  | add => "+"
  | sub => "-"
  | mul => "*"
  | div => "/"
  | rem => "%"

def name : Operator → String
  | or => "Or"
  | and => "And"
  | eq => "Eq"
  | ne => "Ne"
  | greater => "Greater"
  | less => "Less"
  | concat => "Concat"
  | add => "Add"
  | sub => "Sub"
  | mul => "Mul"
  | div => "Div"
  | rem => "Rem"

end Operator

end LetChain
