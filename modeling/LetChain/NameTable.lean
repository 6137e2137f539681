import LetChain.Text.Quoted
import Std.Data.HashMap

/-! The names met so far, each with a handle. Handles count from one in order of first meeting, and
the first five play the parts of the built-in names. -/

namespace LetChain

structure NameTable where
  names : Array String
  handles : Std.HashMap String Nat

namespace NameTable

def empty : NameTable := ⟨#[], ∅⟩

def size (table : NameTable) : Nat := table.names.size

def handle? (table : NameTable) (name : String) : Option Nat := table.handles[name]?

def name? (table : NameTable) : Nat → Option String
  | 0 => none
  | index + 1 => table.names[index]?

def insert (table : NameTable) (name : String) : NameTable :=
  if table.handles.contains name then table
  else
    let ⟨names, handles⟩ := table
    let handle := names.size + 1
    ⟨names.push name, handles.insert name handle⟩

def intern (table : NameTable) (name : String) : NameTable × Nat :=
  let table := table.insert name
  (table, (table.handle? name).getD 0)

def insertAll (table : NameTable) (names : List String) : NameTable := names.foldl insert table

def builtinNames : List String := ["Number", "String", "Boolean", "Seq", "Main"]

def register (table : NameTable) : NameTable :=
  if table.names.isEmpty then table.insertAll builtinNames else table

/-- Whatever name holds the first handle names the type of numbers, and so on. -/
def numberName? (table : NameTable) : Option String := table.name? 1

def stringName? (table : NameTable) : Option String := table.name? 2

def booleanName? (table : NameTable) : Option String := table.name? 3

def seqName? (table : NameTable) : Option String := table.name? 4

def mainName? (table : NameTable) : Option String := table.name? 5

def text (table : NameTable) : String := Text.quotedList table.names.toList

end NameTable

end LetChain
