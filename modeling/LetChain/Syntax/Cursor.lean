import LetChain.NameTable
import LetChain.Syntax.Error
import LetChain.Syntax.Tree
import LetChain.Token.Scan

/-! A reader over the tokens that are not trivia. It sees the current token and the one after it,
stays at the end once there, and keeps the names it has read, also when it fails. -/

namespace LetChain

structure Cursor where
  current : Token
  ahead : List Token
  names : NameTable

namespace Cursor

def ofTokens (tokens : List Token) (names : NameTable) : Cursor :=
  match tokens.filter fun token => !token.kind.isTrivia with
  | [] => ⟨default, [], names⟩
  | token :: rest => ⟨token, rest, names⟩

def nextKind (cursor : Cursor) : TokenKind :=
  match cursor.ahead with
  | [] => .eof
  | token :: _ => token.kind

def step (cursor : Cursor) : Cursor :=
  match cursor with
  | ⟨_, token :: rest, names⟩ => ⟨token, rest, names⟩
  | stay => stay

def learn (cursor : Cursor) (name : String) : Cursor :=
  match cursor with
  | ⟨current, ahead, names⟩ => ⟨current, ahead, names.insert name⟩

end Cursor

abbrev Reader := EStateM (Located ParseError) Cursor

namespace Reader

def peek : Reader Token := do return (← get).current

def fail {α : Type} (span : Span) (error : ParseError) : Reader α := throw ⟨span, error⟩

def unexpected {α : Type} : Reader α := do
  let token ← peek
  fail token.span (.unexpectedInExpr token.kind)

def advance : Reader Token := do
  let token ← peek
  modify Cursor.step
  return token

def isAt (kind : TokenKind) : Reader Bool := do return (← peek).kind = kind

def take (kind : TokenKind) : Reader Bool := do
  if ← isAt kind then
    let _ ← advance
    return true
  else return false

def expect (kind : TokenKind) : Reader Token := do
  let token ← peek
  if token.kind = kind then advance
  else fail token.span (.unexpected token.kind kind)

def ident : Reader Ident := do
  let token ← expect .identifier
  modify (Cursor.learn · token.text)
  return ⟨token.text, token.span⟩

/-- Items with commas between them up to a closing mark, which is left; a last comma is allowed. -/
def separated {α : Type} (close : TokenKind) (item : Reader α) : Nat → Array α → Reader (List α)
  | 0, _ => unexpected
  | fuel + 1, items => do
    if ← isAt close then return items.toList
    else
      let items := items.push (← item)
      if ← take .comma then separated close item fuel items
      else if ← isAt close then return items.toList
      else
        let token ← peek
        fail token.span (.unexpectedAny token.kind [.comma, close])

def operator? : Reader (Option Operator) := do
  let cursor ← get
  return match cursor.current.kind, cursor.nextKind with
    | .orKw, _ => some .or
    | .andKw, _ => some .and
    | .equals, .equals => some .eq
    | .bang, .equals => some .ne
    | .greater, _ => some .greater
    | .less, _ => some .less
    | .dot, .dot => some .concat
    | .plus, _ => some .add
    | .minus, _ => some .sub
    | .star, _ => some .mul
    | .slash, _ => some .div
    | .percent, _ => some .rem
    | _, _ => none

def takeOperator (op : Operator) : Reader Unit := do
  let _ ← advance
  match op with
  | .eq | .ne | .concat => let _ ← advance
  | _ => pure ()

end Reader

end LetChain
