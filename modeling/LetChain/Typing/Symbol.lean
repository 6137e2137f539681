import LetChain.Typing.Ty

/-! Declared things, in order of creation. -/

namespace LetChain

abbrev ScopeId := Nat

inductive SymbolKind where
  | record (fields : List SymbolId)
  | function (params : List SymbolId) (returns : Ty) (scope : ScopeId)
  | param (index : Nat)
  | localVar
  | field (record : SymbolId) (index : Nat)

def SymbolKind.role : SymbolKind → String
  | record _ => "type"
  | function .. => "function"
  | param _ => "parameter"
  | localVar => "local"
  | field .. => "field"

/-- The owner is the function whose frame holds a parameter or a local. -/
structure Symbol where
  name : String
  ty : Ty
  kind : SymbolKind
  span : Span
  owner : Option SymbolId

instance : Inhabited Symbol := ⟨⟨"", .function, .localVar, default, none⟩⟩

abbrev Symbols := Array Symbol

def Symbol.fields (symbol : Symbol) : List SymbolId :=
  match symbol.kind with
  | .record fields => fields
  | _ => []

namespace Symbols

def get (symbols : Symbols) (id : SymbolId) : Symbol := symbols.getD id default

def fields (symbols : Symbols) (id : SymbolId) : List SymbolId := (symbols.get id).fields

def setKind (symbols : Symbols) (id : SymbolId) (kind : SymbolKind) : Symbols :=
  symbols.modify id fun symbol => { symbol with kind := kind }

end Symbols

end LetChain
