import LetChain.Typing.Ty

/-! Why a module does not resolve: a name that means nothing suitable, or types that do not fit. -/

namespace LetChain

inductive BindError where
  | undefinedName (name : String)
  | undefinedType (name : String)
  | wrongKind (name expected actual : String)
  | duplicate (name : String)
  | genericArity (name : String) (expected actual : Nat)
  | arity (name : String) (expected actual : Nat)
  | undefinedField (record field : String)
  | captured (name : String)
  | tooMany (what : String)
  deriving DecidableEq

def BindError.message : BindError → String
  | undefinedName name => s!"{name} is not defined"
  | undefinedType name => s!"type {name} is not defined"
  | wrongKind name expected actual => s!"{name} is a {actual}, but a {expected} was expected"
  | duplicate name => s!"{name} is already declared in this scope"
  | genericArity name expected actual =>
    s!"type {name} takes {expected} type arguments, but got {actual}"
  | arity name expected actual => s!"{name} takes {expected} arguments, but got {actual}"
  | undefinedField record field => s!"type {record} has no field {field}"
  | captured name => s!"{name} belongs to an enclosing function and cannot be captured"
  | tooMany what => s!"too many {what}"

inductive TypeError where
  | operands (op : Operator) (lhs rhs : Ty)
  | argument (name : String) (position : Nat) (expected actual : Ty)
  | field (record name : String) (expected actual : Ty)
  | condition (actual : Ty)
  | branches (yes no : Ty)
  | notASequence (actual : Ty)
  | element (declared actual : Ty)
  | rangeBound (actual : Ty)
  | letBody (name : String) (expected actual : Ty)
  | returns (name : String) (expected actual : Ty)
  | missingValue
  | notARecord (actual : Ty)
  | misplacedSelfAssignment
  deriving DecidableEq

def TypeError.message : TypeError → String
  | operands op lhs rhs => s!"operator {op.symbol} cannot be applied to {lhs.text} and {rhs.text}"
  | argument name position expected actual =>
    s!"argument {position} of {name}: expected type {expected.text}, but got {actual.text}"
  | .field record name expected actual =>
    s!"field {name} of {record}: expected type {expected.text}, but got {actual.text}"
  | condition actual => s!"condition must be Boolean, but got {actual.text}"
  | branches yes no => s!"if branches disagree: then is {yes.text}, but else is {no.text}"
  | notASequence actual => s!"foreach expects a sequence, but got {actual.text}"
  | element declared actual =>
    s!"foreach element declared as {declared.text}, but the sequence holds {actual.text}"
  | rangeBound actual => s!"range bounds must be Number, but got {actual.text}"
  | letBody name expected actual =>
    s!"let {name} is declared as {expected.text}, but is assigned {actual.text}"
  | returns name expected actual =>
    s!"function {name} returns {expected.text}, but its body is {actual.text}"
  | missingValue => "block has no value"
  | notARecord actual => s!"member access on {actual.text}, which is not a record"
  | misplacedSelfAssignment => "an if without else or a foreach is only allowed after where"

end LetChain
