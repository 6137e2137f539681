import LetChain.Command.Disk
import LetChain.Command.Path

/-! A file system as a value. Places are lists of names from the working directory. Places outside it
begin with `..` or `/`. -/

namespace LetChain

inductive Entry where
  | file (content : ByteArray)
  | dir

def Entry.isDir : Entry → Bool
  | dir => true
  | file _ => false

def Entry.content? : Entry → Option ByteArray
  | dir => none
  | file content => some content

abbrev Place := List String

structure Files where
  entries : List (Place × Entry)

namespace Files

def entry? (files : Files) (place : Place) : Option Entry := files.entries.lookup place

def isAlwaysDir (place : Place) : Bool := place.all (· = "..") || place == ["/"]

def lookup? (files : Files) (place : Place) : Option Entry :=
  if isAlwaysDir place then some .dir else files.entry? place

def put (files : Files) (place : Place) (entry : Entry) : Files :=
  ⟨(place, entry) :: files.entries.filter (·.1 ≠ place)⟩

def above (place : Place) : Place :=
  if place = ["/"] then place
  else if place.all (· = "..") then ".." :: place
  else place.dropLast

structure Target where
  dir : Place
  name : Option String
  trailing : Bool

def Target.place (target : Target) : Place := target.dir ++ target.name.toList

def maxNameSize : Nat := 255

/-- Follows segments, all of which but the last must be directories. -/
def follow (files : Files) (dir : Place) : List String → Except FileError (Place × Option String)
  | [] => .ok (dir, none)
  | segment :: rest =>
    if segment = "." then follow files dir rest
    else if segment = ".." then follow files (above dir) rest
    else if segment.utf8ByteSize > maxNameSize then .error .nameTooLong
    else if rest.isEmpty then .ok (dir, some segment)
    else
      match files.lookup? (dir ++ [segment]) with
      | some .dir => follow files (dir ++ [segment]) rest
      | some (.file _) => .error .notADirectory
      | none => .error .missing

def target (files : Files) (path : String) : Except FileError Target :=
  if path = "" then .error .missing
  else do
    let first := if Path.isAbsolute path then ["/"] else []
    let (dir, name) ← follow files first ((Path.segments path).filter (· ≠ ""))
    return ⟨dir, name, path.endsWith "/"⟩

def read (files : Files) (path : String) : Except FileError ByteArray := do
  let target ← files.target path
  match files.lookup? target.place with
  | none => throw .missing
  | some .dir => throw .isADirectory
  | some (.file content) => if target.trailing then throw .notADirectory else return content

def isDir (files : Files) (path : String) : Bool :=
  match files.target path with
  | .ok target => (files.lookup? target.place).any Entry.isDir
  | .error _ => false

def makeDir (files : Files) (path : String) : Except FileError Files := do
  let target ← files.target path
  match files.lookup? target.place with
  | some _ => throw .alreadyExists
  | none => return files.put target.place .dir

def create (files : Files) (path : String) : Except FileError (Place × Files) := do
  let target ← files.target path
  if target.trailing then throw .isADirectory
  else
    match files.lookup? target.place with
    | some .dir => throw .isADirectory
    | _ => return (target.place, files.put target.place (.file .empty))

def ensureDir (files : Files) (path : String) : Except FileError Unit × Files :=
  match files.makeDir path with
  | .ok files => (.ok (), files)
  | .error error => if files.isDir path then (.ok (), files) else (.error error, files)

/-- Makes a directory, after those above it if they are missing. The fuel is at least the number of
segments. -/
def createDirs (files : Files) : Nat → String → Except FileError Unit × Files
  | 0, _ => (.error .missing, files)
  | fuel + 1, path =>
    if path = "" then (.ok (), files)
    else
      match files.ensureDir path with
      | (.error .missing, files) =>
        match Path.parent? path with
        | none => (.error .missing, files)
        | some parent =>
          match files.createDirs fuel parent with
          | (.error error, files) => (.error error, files)
          | (.ok (), files) => files.ensureDir path
      | done => done

def disk : Disk (StateM Files) Place where
  read path := do return (← get).read path
  createDirs path := modifyGet fun files => files.createDirs (path.length + 1) path
  create path := modifyGet fun files =>
    match files.create path with
    | .ok (place, files) => (.ok place, files)
    | .error error => (.error error, files)
  write place text := modifyGet fun files => (.ok (), files.put place (.file text.toUTF8))

end Files

end LetChain
