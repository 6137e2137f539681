import LetChain.Text.Bytes

/-! Regions of a source text, in bytes of its UTF-8 form. -/

namespace LetChain

/-- A span holds its length in 32 bits. -/
def Span.maxLength : Nat := 4294967295

def Span.maxOffset : Nat := 18446744073709551615

structure Span where
  lo : Nat
  length : Nat
  bounded : length ≤ Span.maxLength
  deriving DecidableEq

namespace Span

/-- The region from `lo` to `hi`, cut where its length does not fit. -/
def ofBounds (lo hi : Nat) : Span :=
  ⟨lo, min (hi - lo) maxLength, Nat.min_le_right _ _⟩

instance : Inhabited Span := ⟨ofBounds 0 0⟩

def hi (span : Span) : Nat := span.lo + span.length

def join (a b : Span) : Span := ofBounds (min a.lo b.lo) (max a.hi b.hi)

def moveOffset (offset : Nat) (delta : Int) : Nat := min (offset + delta).toNat maxOffset

def adjust (span : Span) (lower upper : Int) : Span :=
  let lo := moveOffset span.lo lower
  ofBounds lo (max (moveOffset span.hi upper) lo)

def slice? (span : Span) (text : String) : Option String := Text.slice? text span.lo span.hi

def text (span : Span) : String := s!"{span.lo}..{span.hi}"

def describe (span : Span) : String := s!"Span({span.text}, len: {span.length})"

end Span

structure Located (α : Type) where
  span : Span
  value : α

def Located.text {α : Type} (render : α → String) (found : Located α) : String :=
  s!"{found.span.text}: " ++ render found.value

end LetChain
