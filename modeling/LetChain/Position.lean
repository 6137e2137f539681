/-! Lines and columns of a source text. -/

namespace LetChain

/-- One-based line, and one-based column counted in characters. -/
structure Position where
  line : Nat
  column : Nat
  deriving DecidableEq

namespace Position

def start : Position := ⟨1, 1⟩

def next (position : Position) (c : Char) : Position :=
  if c = '\n' then ⟨position.line + 1, 1⟩ else ⟨position.line, position.column + 1⟩

/-- Walks `offset` bytes on. An offset inside a character or past the end leads to the end. -/
def walk (offset : Nat) (position : Position) : List Char → Position
  | [] => position
  | c :: rest =>
    if offset = 0 then position
    else if c.utf8Size ≤ offset then walk (offset - c.utf8Size) (position.next c) rest
    else (c :: rest).foldl next position

def ofOffset (source : String) (offset : Nat) : Position := walk offset start source.toList

end Position

end LetChain
