/-! Cutting text at byte offsets of its UTF-8 form. -/

namespace LetChain.Text

/-- Takes characters until `size` bytes are read; `none` unless a character ends exactly there. -/
def splitBytes? (size : Nat) (taken : List Char) : List Char → Option (List Char × List Char)
  | [] => if size = 0 then some (taken.reverse, []) else none
  | c :: rest =>
    if size = 0 then some (taken.reverse, c :: rest)
    else if c.utf8Size ≤ size then splitBytes? (size - c.utf8Size) (c :: taken) rest
    else none

def slice? (text : String) (lo hi : Nat) : Option String := do
  let (_, rest) ← splitBytes? lo [] text.toList
  let (inner, _) ← splitBytes? (hi - lo) [] rest
  return String.ofList inner

def takeBytes (size : Nat) : List Char → List Char
  | [] => []
  | c :: rest => if c.utf8Size ≤ size then c :: takeBytes (size - c.utf8Size) rest else []

def fit (size : Nat) (text : String) : String :=
  if text.utf8ByteSize ≤ size then text else String.ofList (takeBytes size text.toList)

/-- The first `size` bytes, where a character that is cut inside reads as U+FFFD. -/
def clip (size : Nat) (taken : List Char) : List Char → List Char
  | [] => taken.reverse
  | c :: rest =>
    if c.utf8Size ≤ size then clip (size - c.utf8Size) (c :: taken) rest
    else if size = 0 then taken.reverse
    else ('\ufffd' :: taken).reverse

end LetChain.Text
