import LetChain.Command.Run

/-! The command line over the files of the computer. -/

namespace LetChain

def ampleFuel : Nat := 4611686018427387904

def FileError.ofSystem : IO.Error → FileError
  | .noFileOrDirectory .. => .missing
  | .noSuchThing .. => .missing
  | .alreadyExists .. => .alreadyExists
  | error => .other (toString error)

def attempt {α : Type} (action : IO α) : IO (Except FileError α) := do
  try return .ok (← action)
  catch error => return .error (.ofSystem error)

def realDisk : Disk IO IO.FS.Handle where
  read path := attempt (IO.FS.readBinFile path)
  createDirs path := attempt (IO.FS.createDirAll path)
  create path := attempt (IO.FS.Handle.mk path .write)
  write handle text := attempt (do handle.putStr text; handle.flush)

def usage : String :=
  "usage: [SOURCE] [-o OUTPUT] [--run] [--dump-ast] [-v] [--max-call-depth N]\n"

end LetChain

open LetChain in
def main (args : List String) : IO UInt32 := do
  match Options.read args with
  | .error .help | .error .version =>
    IO.print usage
    return 0
  | .error .misuse =>
    IO.eprint usage
    return 2
  | .ok options =>
    let report ← Command.execute realDisk options ampleFuel .unlimited
    IO.print report.stdout
    IO.eprint report.stderr
    return UInt32.ofNat report.exit
