/-! The arguments of the command line. -/

namespace LetChain

structure Options where
  source : String
  output : Option String
  run : Bool
  dumpTree : Bool
  verbose : Bool
  maxCallDepth : Option Nat
  deriving DecidableEq

inductive Refusal where
  | help
  | version
  | misuse
  deriving DecidableEq

namespace Arguments

inductive Valued where
  | output
  | maxCallDepth
  deriving DecidableEq

inductive Flag where
  | run
  | dumpTree
  | verbose
  | help
  | version
  deriving DecidableEq

structure Progress where
  source : Option String
  output : Option String
  run : Bool
  dumpTree : Bool
  verbose : Bool
  maxCallDepth : Option Nat
  pending : Option Valued

def start : Progress := ⟨none, none, false, false, false, none, none⟩

abbrev Reading := Except Refusal

def maxNumber : Nat := 18446744073709551615

def number? (text : String) : Option Nat :=
  let digits :=
    match text.toList with
    | '+' :: rest => rest
    | other => other
  if digits.isEmpty ∨ !digits.all Char.isDigit then none
  else
    let value := digits.foldl (fun value c => 10 * value + (c.toNat - '0'.toNat)) 0
    if value ≤ maxNumber then some value else none

def setFlag (progress : Progress) : Flag → Reading Progress
  | .run => if progress.run then .error .misuse else .ok { progress with run := true }
  | .dumpTree => if progress.dumpTree then .error .misuse else .ok { progress with dumpTree := true }
  | .verbose => if progress.verbose then .error .misuse else .ok { progress with verbose := true }
  | .help => .error .help
  | .version => .error .version

def setValue (progress : Progress) (value : String) : Valued → Reading Progress
  | .output =>
    if progress.output.isSome ∨ value = "" then .error .misuse
    else .ok { progress with output := some value, pending := none }
  | .maxCallDepth =>
    match progress.maxCallDepth, number? value with
    | none, some depth => .ok { progress with maxCallDepth := some depth, pending := none }
    | _, _ => .error .misuse

def setSource (progress : Progress) (source : String) : Reading Progress :=
  if progress.source.isSome ∨ source = "" then .error .misuse
  else .ok { progress with source := some source }

def expectValue (progress : Progress) (option : Valued) : Reading Progress :=
  .ok { progress with pending := some option }

def long (progress : Progress) (name : String) (value? : Option String) : Reading Progress :=
  match name, value? with
  | "run", none => setFlag progress .run
  | "dump-ast", none => setFlag progress .dumpTree
  | "verbose", none => setFlag progress .verbose
  | "help", none => setFlag progress .help
  | "version", none => setFlag progress .version
  | "output", none => expectValue progress .output
  | "output", some value => setValue progress value .output
  | "max-call-depth", none => expectValue progress .maxCallDepth
  | "max-call-depth", some value => setValue progress value .maxCallDepth
  | _, _ => .error .misuse

/-- The letters after one hyphen. What follows `o` is its value, after `=` or at once. -/
def short (progress : Progress) : List Char → Reading Progress
  | [] => .ok progress
  | 'v' :: rest => do short (← setFlag progress .verbose) rest
  | 'h' :: _ => .error .help
  | 'V' :: _ => .error .version
  | ['o'] => expectValue progress .output
  | 'o' :: '=' :: value => setValue progress (String.ofList value) .output
  | 'o' :: value => setValue progress (String.ofList value) .output
  | _ => .error .misuse

def splitValue (name : List Char) : List Char → String × Option String
  | [] => (String.ofList name.reverse, none)
  | '=' :: value => (String.ofList name.reverse, some (String.ofList value))
  | c :: rest => splitValue (c :: name) rest

/-- Reads one argument. A value must not look like an option, but `-` alone is a value. -/
def argument (progress : Progress) (text : String) : Reading Progress :=
  match progress.pending, text.toList with
  | some option, [] => setValue progress text option
  | some option, ['-'] => setValue progress text option
  | some _, '-' :: _ => .error .misuse
  | some option, _ => setValue progress text option
  | none, ['-'] => setSource progress text
  | none, '-' :: '-' :: rest =>
    let (name, value?) := splitValue [] rest
    long progress name value?
  | none, '-' :: rest => short progress rest
  | none, _ => setSource progress text

def arguments (progress : Progress) : List String → Reading Progress
  | [] => .ok progress
  | text :: rest =>
    if text = "--" ∧ progress.pending = none then rest.foldlM setSource progress
    else do arguments (← argument progress text) rest

def defaultSource : String := "program.pap"

end Arguments

def Options.read (args : List String) : Except Refusal Options := do
  let progress ← Arguments.arguments Arguments.start args
  if progress.pending.isSome then throw .misuse
  else
    return ⟨progress.source.getD Arguments.defaultSource, progress.output, progress.run,
      progress.dumpTree, progress.verbose, progress.maxCallDepth⟩

end LetChain
