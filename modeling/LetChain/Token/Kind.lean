/-! The kinds of tokens. -/

namespace LetChain

inductive TokenKind where
  | funcKw | typeKw | letKw | whereKw | ifKw | thenKw | elseKw | foreachKw
  | inKw | doKw | toKw | stepKw | andKw | orKw | trueKw | falseKw
  | plus | minus | star | slash | percent | less | greater | equals | bang | dot | comma
  | leftParen | rightParen | leftBrace | rightBrace | leftBracket | rightBracket | arrow
  | identifier | number | string
  | whitespace | comment | eof
  | unexpectedChar | unclosedString
  deriving DecidableEq

namespace TokenKind

def name : TokenKind → String
  | funcKw => "Func"
  | typeKw => "Type"
  | letKw => "Let"
  | whereKw => "Where"
  | ifKw => "If"
  | thenKw => "Then"
  | elseKw => "Else"
  | foreachKw => "Foreach"
  | inKw => "In"
  | doKw => "Do"
  | toKw => "To"
  | stepKw => "Step"
  | andKw => "And"
  | orKw => "Or"
  | trueKw => "True"
  | falseKw => "False"
  | plus => "Plus"
  | minus => "Minus"
  | star => "Star"
  | slash => "Slash"
  | percent => "Percent"
  | less => "Less"
  | greater => "Greater"
  | equals => "Eq"
  | bang => "Bang"
  | dot => "Dot"
  | comma => "Comma"
  | leftParen => "LParen"
  | rightParen => "RParen"
  | leftBrace => "LBrace"
  | rightBrace => "RBrace"
  | leftBracket => "LBracket"
  | rightBracket => "RBracket"
  | arrow => "Arrow"
  | identifier => "Identifier"
  | number => "Number"
  | string => "String"
  | whitespace => "Whitespace"
  | comment => "Comment"
  | eof => "Eof"
  | unexpectedChar => "ErrorUnexpectedChar"
  | unclosedString => "ErrorUnclosedString"

def isTrivia : TokenKind → Bool
  | whitespace | comment => true
  | _ => false

def isError : TokenKind → Bool
  | unexpectedChar | unclosedString => true
  | _ => false

def keyword? : String → Option TokenKind
  | "func" => some funcKw
  | "type" => some typeKw
  | "let" => some letKw
  | "where" => some whereKw
  | "if" => some ifKw
  | "then" => some thenKw
  | "else" => some elseKw
  | "foreach" => some foreachKw
  | "in" => some inKw
  | "do" => some doKw
  | "to" => some toKw
  | "step" => some stepKw
  | "and" => some andKw
  | "or" => some orKw
  | "true" => some trueKw
  | "false" => some falseKw
  | _ => none

def mark? (c : Char) : Option TokenKind :=
  if c = '+' then some plus
  else if c = '*' then some star
  else if c = '%' then some percent
  else if c = '<' then some less
  else if c = '>' then some greater
  else if c = '=' then some equals
  else if c = '!' then some bang
  else if c = '.' then some dot
  else if c = ',' then some comma
  else if c = '(' then some leftParen
  else if c = ')' then some rightParen
  else if c = '\x7b' then some leftBrace
  else if c = '\x7d' then some rightBrace
  else if c = '[' then some leftBracket
  else if c = ']' then some rightBracket
  else none

end TokenKind

end LetChain
