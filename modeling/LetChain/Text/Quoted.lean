import LetChain.Text.Combining
import LetChain.Text.Hidden

/-! Text between double quotes, as trees and listings show it. A character is written as itself
if it has a printed form of its own, else by a short or a numeric escape. -/

namespace LetChain.Text

def escape (c : Char) : List Char :=
  if c = '\x00' then ['\\', '0']
  else if c = '\t' then ['\\', 't']
  else if c = '\r' then ['\\', 'r']
  else if c = '\n' then ['\\', 'n']
  else if c = '\\' || c = '"' then ['\\', c]
  else if 0x20 ≤ c.toNat && c.toNat < 0x7f then [c]
  else if isCombining c || isHidden c then
    '\\' :: 'u' :: '\x7b' :: (Nat.toDigits 16 c.toNat ++ ['\x7d'])
  else [c]

def quoted (text : String) : String :=
  String.ofList ('"' :: (text.toList.flatMap escape ++ ['"']))

def quotedList (texts : List String) : String :=
  "[" ++ String.intercalate ", " (texts.map quoted) ++ "]"

end LetChain.Text
