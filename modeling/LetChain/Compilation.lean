import LetChain.Lowering.Generate
import LetChain.Position
import LetChain.Syntax.Parse
import LetChain.Typing.Resolve

/-! From a source text to a program. -/

namespace LetChain

structure Compilation where
  resolved : Resolved
  program : Program

def resolveSource (source : String) (names : NameTable) :
    Except CompileError Resolved × NameTable :=
  match parseModule source names with
  | (.error error, names) => (.error (.parse error), names)
  | (.ok m, names) => (m.resolve names, names)

def compileWith (source : String) (names : NameTable) :
    Except (Halt CompileError) Compilation × NameTable :=
  match resolveSource source names with
  | (.error error, names) => (.error (.error error), names)
  | (.ok resolved, names) =>
    match resolved.module.generate resolved.symbols names.mainName? with
    | .error halt => (.error (halt.map CompileError.lower), names)
    | .ok program => (.ok ⟨resolved, program⟩, names)

def compile (source : String) : Except (Halt CompileError) Compilation :=
  (compileWith source .empty).1

/-- The error as the command line reports it. An error without a place repeats its cause. -/
def CompileError.located (path source : String) (error : CompileError) : String :=
  match error with
  | .lower cause => s!"{path}: {error.message}: {cause.message}"
  | _ =>
    let position := Position.ofOffset source ((error.span?.map Span.lo).getD 0)
    s!"{path}:{position.line}:{position.column}: {error.message}"

end LetChain
