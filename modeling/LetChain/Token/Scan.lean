import LetChain.Span
import LetChain.Token.Lexeme

/-! A source text as a list of tokens that follow each other without gaps. -/

namespace LetChain

/-- The text is what the source holds in the span, up to the last character that ends there. -/
structure Token where
  kind : TokenKind
  span : Span
  text : String

namespace Token

instance : Inhabited Token := ⟨⟨.eof, default, ""⟩⟩

/-- The bytes in the span of a string token. Only a span that is full has no quote at its end. -/
def quotedSize (token : Token) : Nat :=
  if token.text.toList.getLast? = some '"' then token.text.utf8ByteSize else Span.maxLength

/-- What a string token holds: all in its span but the first and the last byte. There is no such text
if the last byte is within a character. -/
def content? (token : Token) : Option String := Text.slice? token.text 1 (token.quotedSize - 1)

def scanFrom (offset : Nat) (cs : List Char) (tokens : Array Token) : Array Token :=
  let lexeme := Lexeme.first cs
  let text := String.ofList lexeme.chars
  let stop := offset + text.utf8ByteSize
  let span := Span.ofBounds offset stop
  let tokens := tokens.push ⟨lexeme.kind, span, Text.fit span.length text⟩
  if _ : lexeme.kind ≠ .eof then scanFrom stop lexeme.rest tokens else tokens
termination_by cs.length
decreasing_by exact Lexeme.first_rest_length_lt cs (by assumption)

def scan (source : String) : List Token := (scanFrom 0 source.toList #[]).toList

end Token

end LetChain
