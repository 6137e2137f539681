/-! Paths as texts with `/` between their segments. -/

namespace LetChain.Path

def parts (separator : Char) (text : String) : List String :=
  (text.toList.splitOn separator).map String.ofList

def segments (path : String) : List String := parts '/' path

def isAbsolute (path : String) : Bool := path.startsWith "/"

/-- Drops empty and `.` segments from the end of a reversed path, but not its first segment. -/
def dropIdle : List String → List String
  | last :: before :: rest =>
    if last = "" ∨ last = "." then dropIdle (before :: rest) else last :: before :: rest
  | other => other

def ofReversed : List String → String
  | [""] => "/"
  | reversed => String.intercalate "/" reversed.reverse

def parent? (path : String) : Option String :=
  match dropIdle (segments path).reverse with
  | [] => none
  | [""] => none
  | [_] => some ""
  | _ :: rest => some (ofReversed (dropIdle rest))

/-- The name without its last point and what follows. A point at the start does not count. -/
def stem (name : String) : String :=
  match (parts '.' name).reverse with
  | _ :: before :: rest =>
    let stem := String.intercalate "." (before :: rest).reverse
    if stem = "" then name else stem
  | _ => name

/-- Replaces the extension of the last segment, or adds one. A path without a name stays. -/
def withExtension (path extension : String) : String :=
  match dropIdle (segments path).reverse with
  | [] => path
  | name :: rest =>
    if name = "" ∨ name = "." ∨ name = ".." then path
    else String.intercalate "/" ((stem name ++ "." ++ extension) :: rest).reverse

end LetChain.Path
