import LetChain.Number.Notation

/-! Values of the stack machine. -/

namespace LetChain

/-- Records are told apart by where they come from: the caller of the machine gave them, or the
machine made them, in some order. -/
inductive Identity where
  | given (number : Nat)
  | made (number : Nat)
  deriving DecidableEq

/-- A boxed value may be an operand of text instructions. -/
inductive Value where
  | number (value : Float)
  | bool (value : Bool)
  | text (value : String)
  | boxed (inner : Value)
  | record (identity : Identity) (name : String) (fields : List String) (values : List Value)
  | seq (items : List Value)

instance : Inhabited Value := ⟨.bool false⟩

namespace Value

def kind : Value → String
  | number _ => "number"
  | bool _ => "bool"
  | text _ => "string"
  | boxed _ => "boxed"
  | record .. => "record"
  | seq _ => "sequence"

mutual

def renderOnto (out : String) : Value → String
  | number value => out ++ Number.text value
  | bool value => out ++ toString value
  | text value => out ++ value
  | boxed inner => inner.renderOnto out
  | record _ name fields values =>
    renderFieldsOnto (out ++ name ++ " \x7b ") "" fields values ++ " \x7d"
  | seq items => renderItemsOnto (out ++ "[") "" items ++ "]"

def renderFieldsOnto (out separator : String) (fields : List String) : List Value → String
  | [] => out
  | value :: rest =>
    match fields with
    | [] => out
    | field :: fields =>
      renderFieldsOnto (value.renderOnto (out ++ separator ++ field ++ ": ")) ", " fields rest

def renderItemsOnto (out separator : String) : List Value → String
  | [] => out
  | item :: rest => renderItemsOnto (item.renderOnto (out ++ separator)) ", " rest

end

def render (value : Value) : String := value.renderOnto ""

mutual

/-- Equality by content: the identity of records does not count, and NaN differs from itself. -/
def same : Value → Value → Bool
  | number a, number b => a == b
  | bool a, bool b => a == b
  | text a, text b => a == b
  | boxed a, boxed b => a.same b
  | record _ name fields values, record _ name' fields' values' =>
    name == name' && fields == fields' && sameAll values values'
  | seq items, seq items' => sameAll items items'
  | _, _ => false

def sameAll : List Value → List Value → Bool
  | [], [] => true
  | a :: as, b :: bs => a.same b && sameAll as bs
  | _, _ => false

end

end Value

end LetChain
