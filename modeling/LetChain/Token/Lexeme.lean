import LetChain.Text.Blank
import LetChain.Token.Kind

/-! The first token of a text: which characters it takes and what kind it is. A NUL character
stands for the end of the text wherever it is met. -/

namespace LetChain

structure Lexeme where
  kind : TokenKind
  chars : List Char
  rest : List Char

namespace Lexeme

def isWordStart (c : Char) : Bool := c.isAlpha || c == '_'

def isWordPart (c : Char) : Bool := c.isAlphanum || c == '_'

def run (kind : TokenKind) (first : Char) (part : Char → Bool) (rest : List Char) : Lexeme :=
  ⟨kind, first :: rest.takeWhile part, rest.dropWhile part⟩

def word (first : Char) (rest : List Char) : Lexeme :=
  let chars := first :: rest.takeWhile isWordPart
  ⟨(TokenKind.keyword? (String.ofList chars)).getD .identifier, chars, rest.dropWhile isWordPart⟩

def number (first : Char) (rest : List Char) : Lexeme :=
  let whole := first :: rest.takeWhile Char.isDigit
  match rest.dropWhile Char.isDigit with
  | '.' :: digit :: after =>
    if digit.isDigit then
      ⟨.number, whole ++ '.' :: digit :: after.takeWhile Char.isDigit, after.dropWhile Char.isDigit⟩
    else ⟨.number, whole, '.' :: digit :: after⟩
  | after => ⟨.number, whole, after⟩

/-- Everything up to the next quote, line breaks included; there are no escapes. -/
def string (quote : Char) (rest : List Char) : Lexeme :=
  let inner := fun c : Char => c != '"' && c != '\x00'
  match rest.dropWhile inner with
  | [] => ⟨.unclosedString, quote :: rest.takeWhile inner, []⟩
  | stop :: after =>
    let kind := if stop = '"' then TokenKind.string else .unclosedString
    ⟨kind, quote :: (rest.takeWhile inner ++ [stop]), after⟩

def minus (first : Char) : List Char → Lexeme
  | '>' :: rest => ⟨.arrow, [first, '>'], rest⟩
  | rest => ⟨.minus, [first], rest⟩

def slash (first : Char) : List Char → Lexeme
  | '/' :: rest =>
    let inner := fun c : Char => c != '\n' && c != '\x00'
    ⟨.comment, first :: '/' :: rest.takeWhile inner, rest.dropWhile inner⟩
  | rest => ⟨.slash, [first], rest⟩

def startingWith (c : Char) (rest : List Char) : Lexeme :=
  if c = '\x00' then ⟨.eof, [c], rest⟩
  else if c = '-' then minus c rest
  else if c = '/' then slash c rest
  else if c = '"' then string c rest
  else match TokenKind.mark? c with
    | some kind => ⟨kind, [c], rest⟩
    | none =>
      if isWordStart c then word c rest
      else if c.isDigit then number c rest
      else if Text.isBlank c then run .whitespace c Text.isBlank rest
      else ⟨.unexpectedChar, [c], rest⟩

def first : List Char → Lexeme
  | [] => ⟨.eof, [], []⟩
  | c :: rest => startingWith c rest

theorem dropWhile_length_le (part : Char → Bool) (cs : List Char) :
    (cs.dropWhile part).length ≤ cs.length := by
  induction cs with
  | nil => simp
  | cons c cs ih =>
    simp only [List.dropWhile]
    split
    · exact Nat.le_trans ih (Nat.le_succ _)
    · exact Nat.le_refl _

theorem number_rest_length_le (c : Char) (rest : List Char) :
    (number c rest).rest.length ≤ rest.length := by
  have bound := dropWhile_length_le Char.isDigit rest
  unfold number
  split
  next digit after found =>
    rw [found] at bound
    have later := dropWhile_length_le Char.isDigit after
    simp only [List.length_cons] at bound
    split
    · simp only
      omega
    · simpa using bound
  next => exact bound

theorem string_rest_length_le (c : Char) (rest : List Char) :
    (string c rest).rest.length ≤ rest.length := by
  unfold string
  simp only
  split
  next => simp
  next stop after found =>
    have bound := dropWhile_length_le (fun c : Char => c != '"' && c != '\x00') rest
    rw [found] at bound
    simp only [List.length_cons] at bound
    simp only
    omega

theorem minus_rest_length_le (c : Char) (rest : List Char) :
    (minus c rest).rest.length ≤ rest.length := by
  unfold minus
  split <;> simp

theorem slash_rest_length_le (c : Char) (rest : List Char) :
    (slash c rest).rest.length ≤ rest.length := by
  unfold slash
  split
  next after =>
    have bound := dropWhile_length_le (fun c : Char => c != '\n' && c != '\x00') after
    simp only [List.length_cons]
    omega
  next => simp

theorem startingWith_rest_length_le (c : Char) (rest : List Char) :
    (startingWith c rest).rest.length ≤ rest.length := by
  unfold startingWith
  repeat' split
  · simp
  · exact minus_rest_length_le c rest
  · exact slash_rest_length_le c rest
  · exact string_rest_length_le c rest
  · simp
  · exact dropWhile_length_le _ _
  · exact number_rest_length_le c rest
  · exact dropWhile_length_le _ _
  · simp

/-- Every token but the last takes at least one character. -/
theorem first_rest_length_lt (cs : List Char) (more : (first cs).kind ≠ .eof) :
    (first cs).rest.length < cs.length := by
  cases cs with
  | nil => simp [first] at more
  | cons c rest =>
    have bound := startingWith_rest_length_le c rest
    simp only [first, List.length_cons]
    omega

end Lexeme

end LetChain
