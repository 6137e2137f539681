import LetChain.Typing.Symbol
import Std.Data.HashMap

/-! Scopes in an arena, with a cursor on the current one. A scope knows its parent and two separate
sets of names, one of symbols and one of types. -/

namespace LetChain

structure Scope where
  parent : Option ScopeId
  names : Std.HashMap String SymbolId
  types : Std.HashMap String Ty

instance : Inhabited Scope := ⟨⟨none, ∅, ∅⟩⟩

structure Scopes where
  scopes : Array Scope
  current : ScopeId

namespace Scopes

def initial : Scopes := ⟨#[⟨none, ∅, ∅⟩], 0⟩

def addChild (arena : Scopes) : Scopes :=
  let ⟨scopes, current⟩ := arena
  ⟨scopes.push ⟨some current, ∅, ∅⟩, current⟩

def push (arena : Scopes) : Scopes :=
  let ⟨scopes, current⟩ := arena
  let child := scopes.size
  ⟨scopes.push ⟨some current, ∅, ∅⟩, child⟩

def pop (arena : Scopes) : Scopes :=
  match (arena.scopes[arena.current]?).bind Scope.parent with
  | some parent => { arena with current := parent }
  | none => arena

def enter (arena : Scopes) (scope : ScopeId) : Scopes := { arena with current := scope }

def own? (arena : Scopes) (name : String) : Option SymbolId :=
  (arena.scopes[arena.current]?).bind (·.names[name]?)

def ownType? (arena : Scopes) (name : String) : Option Ty :=
  (arena.scopes[arena.current]?).bind (·.types[name]?)

def declare (arena : Scopes) (name : String) (symbol : SymbolId) : Except SymbolId Scopes :=
  match arena.own? name with
  | some previous => .error previous
  | none =>
    let ⟨scopes, current⟩ := arena
    .ok ⟨scopes.modify current fun scope => { scope with names := scope.names.insert name symbol },
      current⟩

def declareType? (arena : Scopes) (name : String) (ty : Ty) : Option Scopes :=
  match arena.ownType? name with
  | some _ => none
  | none =>
    let ⟨scopes, current⟩ := arena
    some ⟨scopes.modify current fun scope => { scope with types := scope.types.insert name ty },
      current⟩

/-- The first answer of `find` on the way outward. Parents come before their children. -/
def searchFrom? {α : Type} (scopes : Array Scope) (find : Scope → Option α) (id : ScopeId) :
    Option α :=
  match scopes[id]? with
  | none => none
  | some scope =>
    match find scope, scope.parent with
    | some found, _ => some found
    | none, some parent => if parent < id then searchFrom? scopes find parent else none
    | none, none => none

def lookup? (arena : Scopes) (name : String) : Option SymbolId :=
  searchFrom? arena.scopes (·.names[name]?) arena.current

def lookupType? (arena : Scopes) (name : String) : Option Ty :=
  searchFrom? arena.scopes (·.types[name]?) arena.current

end Scopes

end LetChain
