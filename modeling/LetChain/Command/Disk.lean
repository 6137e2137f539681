/-! What the command line asks of a file system. -/

namespace LetChain

inductive FileError where
  | missing
  | alreadyExists
  | notADirectory
  | isADirectory
  | nameTooLong
  | notText
  | other (text : String)
  deriving DecidableEq

def FileError.message : FileError → String
  | missing => "No such file or directory (os error 2)"
  | alreadyExists => "File exists (os error 17)"
  | notADirectory => "Not a directory (os error 20)"
  | isADirectory => "Is a directory (os error 21)"
  | nameTooLong => "File name too long (os error 36)"
  | notText => "stream did not contain valid UTF-8"
  | other text => text

/-- What is asked of a file system. Creating a file also empties it, and leaves it open for writing. -/
structure Disk (m : Type → Type) (Handle : Type) where
  read : String → m (Except FileError ByteArray)
  createDirs : String → m (Except FileError Unit)
  create : String → m (Except FileError Handle)
  write : Handle → String → m (Except FileError Unit)

end LetChain
