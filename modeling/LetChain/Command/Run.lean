import LetChain.Code.Listing
import LetChain.Command.Arguments
import LetChain.Command.Disk
import LetChain.Command.Path
import LetChain.Compilation
import LetChain.Machine.Run

/-! What the command line does: it compiles a file, writes the listing, and may print the tree and run
the program. -/

namespace LetChain

structure Report where
  exit : Nat
  stdout : String
  stderr : String

/-- Where the output goes, why what does not fit is refused, and whether the rest arrives in the end. -/
structure Console where
  sink : Sink
  refusal : FileError
  flushed : Except FileError Unit

def Console.unlimited : Console := ⟨.unlimited, .other "", .ok ()⟩

namespace Command

def failed (stdout reason : String) : Report := ⟨1, stdout, "error: " ++ reason ++ "\n"⟩

def listingExtension : String := "pasm"

variable {m : Type → Type} [Monad m] {Handle : Type}

def readSource (disk : Disk m Handle) (path : String) : m (Except FileError String) := do
  match ← disk.read path with
  | .error error => return .error error
  | .ok content =>
    match String.fromUTF8? content with
    | some text => return .ok text
    | none => return .error .notText

def ensureDir (disk : Disk m Handle) (path : String) : m (Except FileError Unit) :=
  if path = "" then pure (.ok ()) else disk.createDirs path

def openListing (disk : Disk m Handle) (path : String) : m (Except String Handle) := do
  let parent := (Path.parent? path).getD ""
  match ← ensureDir disk parent with
  | .error error => return .error s!"failed to create directory {parent}: {error.message}"
  | .ok () =>
    match ← disk.create path with
    | .error error => return .error s!"failed to create output file {path}: {error.message}"
    | .ok handle => return .ok handle

def writeListing (disk : Disk m Handle) (path listing : String) : m (Except String Unit) := do
  match ← openListing disk path with
  | .error reason => return .error reason
  | .ok handle =>
    match ← disk.write handle listing with
    | .error error => return .error s!"failed to write output file {path}: {error.message}"
    | .ok () => return .ok ()

def limits (options : Options) : Limits :=
  match options.maxCallDepth with
  | some depth => { Limits.standard with maxCallDepth := depth }
  | none => .standard

def runProgram (program : Program) (limits : Limits) (fuel : Nat) (console : Console) :
    Sink × Option String :=
  match Machine.fresh.execute program limits fuel console.sink with
  | .running state => (state.sink, some "out of fuel")
  | .returned _ _ sink => (sink, none)
  | .stopped (.error .output) _ sink =>
    (sink, some s!"{RuntimeError.output.message}: {console.refusal.message}")
  | .stopped (.error error) _ sink => (sink, some error.message)
  | .stopped (.fault _) _ sink => (sink, some "malformed program")

def finish (options : Options) (compilation : Compilation) (fuel : Nat) (console : Console) :
    Report :=
  let tree := if options.dumpTree then compilation.resolved.module.outline else ""
  match console.sink.write tree with
  | (sink, false) =>
    failed sink.written s!"failed to print the syntax tree: {console.refusal.message}"
  | (sink, true) =>
    let (sink, reason) :=
      if options.run then runProgram compilation.program (limits options) fuel { console with sink }
      else (sink, none)
    match reason, console.flushed with
    | some reason, _ => failed sink.written ("program failed: " ++ reason)
    | none, .error error => failed sink.written error.message
    | none, .ok () => ⟨0, sink.written, ""⟩

def compileListing (path source : String) : Except String (Compilation × String) :=
  match compile source with
  | .error (.error error) => .error (error.located path source)
  | .error (.fault _) => .error (path ++ ": malformed program")
  | .ok compilation =>
    match compilation.program.listing with
    | .ok listing => .ok (compilation, listing)
    | .error _ => .error (path ++ ": malformed program")

def execute (disk : Disk m Handle) (options : Options) (fuel : Nat) (console : Console) :
    m Report := do
  match ← readSource disk options.source with
  | .error error =>
    return failed "" s!"failed to read source file {options.source}: {error.message}"
  | .ok source =>
    match compileListing options.source source with
    | .error reason => return failed "" reason
    | .ok (compilation, listing) =>
      let output := options.output.getD (Path.withExtension options.source listingExtension)
      match ← writeListing disk output listing with
      | .error reason => return failed "" reason
      | .ok () => return finish options compilation fuel console

end Command

end LetChain
