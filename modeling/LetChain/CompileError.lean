import LetChain.Lowering.Error
import LetChain.Syntax.Error
import LetChain.Typing.Error

/-! The first error of a compilation. -/

namespace LetChain

inductive CompileError where
  | parse (error : Located ParseError)
  | bind (error : Located BindError)
  | type (error : Located TypeError)
  | lower (error : LowerError)

namespace CompileError

def message : CompileError → String
  | parse error => "parse error at " ++ error.text ParseError.message
  | bind error => "bind error at " ++ error.text BindError.message
  | type error => "type error at " ++ error.text TypeError.message
  | lower error => "lower error: " ++ error.message

def span? : CompileError → Option Span
  | parse error => some error.span
  | bind error => some error.span
  | type error => some error.span
  | lower _ => none

end CompileError

end LetChain
