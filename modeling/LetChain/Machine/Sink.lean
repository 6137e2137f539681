import LetChain.Text.Bytes

/-! Where output goes. -/

namespace LetChain

/-- A sink may have room for a number of bytes only. -/
structure Sink where
  written : String
  room : Option Nat

namespace Sink

def unlimited : Sink := ⟨"", none⟩

def limited (room : Nat) : Sink := ⟨"", some room⟩

def write (sink : Sink) (text : String) : Sink × Bool :=
  let ⟨written, room⟩ := sink
  match room with
  | none => (⟨written ++ text, none⟩, true)
  | some room =>
    if text.utf8ByteSize ≤ room then
      (⟨written ++ text, some (room - text.utf8ByteSize)⟩, true)
    else (⟨written ++ String.ofList (Text.clip room [] text.toList), some 0⟩, false)

end Sink

end LetChain
