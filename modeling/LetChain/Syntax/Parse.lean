import LetChain.Syntax.Grammar

/-! Reading a whole source text. A lexical error anywhere wins over every other. -/

namespace LetChain

/-- Registers the built-in names if the table is unused, then runs a reader over the tokens. The
names read are kept whether the reader succeeds or not. -/
def parseWith {α : Type} (reader : Nat → Reader α) (source : String) (names : NameTable) :
    Except (Located ParseError) α × NameTable :=
  let names := names.register
  let tokens := Token.scan source
  match tokens.find? fun token => token.kind.isError with
  | some bad =>
    let cause := if bad.kind = .unclosedString then LexError.unclosedString else .unexpectedChar
    (.error ⟨bad.span, .lexical cause⟩, names)
  | none =>
    match reader (8 * tokens.length + 16) (Cursor.ofTokens tokens names) with
    | .ok value cursor => (.ok value, cursor.names)
    | .error error cursor => (.error error, cursor.names)

def parseModule (source : String) (names : NameTable) :
    Except (Located ParseError) (Module .parsed) × NameTable :=
  parseWith (fun fuel => Module.mk <$> Reader.declarations fuel #[]) source names

def parseExpr (source : String) (names : NameTable) :
    Except (Located ParseError) (Expr .parsed) × NameTable :=
  parseWith (fun fuel => Reader.expr fuel <* Reader.expect .eof) source names

end LetChain
