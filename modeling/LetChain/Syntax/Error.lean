import LetChain.Token.Kind

/-! Why a text is not a module or an expression. -/

namespace LetChain

inductive LexError where
  | unexpectedChar
  | unclosedString
  deriving DecidableEq

def LexError.message : LexError → String
  | unexpectedChar => "unexpected character"
  | unclosedString => "unclosed string"

inductive ParseError where
  | unexpected (actual expected : TokenKind)
  | unexpectedAny (actual : TokenKind) (expected : List TokenKind)
  | unexpectedInExpr (token : TokenKind)
  | expectedDeclaration (actual : TokenKind)
  | selfAssigningFirstBody
  | invalidNumber
  | brokenText
  | lexical (cause : LexError)
  deriving DecidableEq

def ParseError.message : ParseError → String
  | unexpected actual expected => s!"expected token {expected.name}, but got {actual.name}"
  | unexpectedAny actual expected =>
    "expected one of [" ++ String.intercalate ", " (expected.map TokenKind.name) ++
      s!"], but got {actual.name}"
  | unexpectedInExpr token => s!"unexpected token {token.name} in expression"
  | expectedDeclaration actual =>
    s!"expected a function or type declaration, but got {actual.name}"
  | selfAssigningFirstBody =>
    "the first body of a let cannot be an if without else or a foreach"
  | invalidNumber => "invalid number literal"
  | brokenText => "text breaks off within a character"
  | lexical cause => cause.message

end LetChain
