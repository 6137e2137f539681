import LetChain.CompileError
import LetChain.NameTable
import LetChain.Typing.Scope
import Std.Data.HashSet

/-! Declaring names. A list of statements declares its records and functions before any statement is
resolved: first the names of records, so that records may refer to each other, then their fields,
then the functions. -/

namespace LetChain

structure Bindings where
  symbols : Symbols
  scopes : Scopes
  owner : Option SymbolId

abbrev Resolve := StateT Bindings (Except CompileError)

namespace Resolve

abbrev PExpr := Expr .parsed
abbrev PStmt := Stmt .parsed

/-- Fields and parameters are numbered in 16 bits. -/
def maxIndex : Nat := 65535

def failBind {α : Type} (span : Span) (error : BindError) : Resolve α :=
  throw (.bind ⟨span, error⟩)

def failType {α : Type} (span : Span) (error : TypeError) : Resolve α :=
  throw (.type ⟨span, error⟩)

def addSymbol (symbol : Symbol) : Resolve SymbolId :=
  modifyGet fun bindings =>
    (bindings.symbols.size, { bindings with symbols := bindings.symbols.push symbol })

def symbol (id : SymbolId) : Resolve Symbol := do return (← get).symbols.get id

def setKind (id : SymbolId) (kind : SymbolKind) : Resolve Unit :=
  modify fun bindings => { bindings with symbols := bindings.symbols.setKind id kind }

def modifyScopes (f : Scopes → Scopes) : Resolve Unit :=
  modify fun bindings => { bindings with scopes := f bindings.scopes }

/-- A new child of the current scope. -/
def addScope : Resolve ScopeId := fun ⟨symbols, ⟨scopes, current⟩, owner⟩ =>
  let child := scopes.size
  .ok (child, ⟨symbols, Scopes.addChild ⟨scopes, current⟩, owner⟩)

def enterScope (scope : ScopeId) : Resolve ScopeId := do
  let previous := (← get).scopes.current
  modifyScopes (·.enter scope)
  return previous

def setOwner (owner : Option SymbolId) : Resolve Unit :=
  modify fun bindings => { bindings with owner := owner }

def declare (ident : Ident) (id : SymbolId) : Resolve Unit := fun bindings =>
  let ⟨symbols, scopes, owner⟩ := bindings
  match scopes.declare ident.text id with
  | .ok scopes => .ok ((), ⟨symbols, scopes, owner⟩)
  | .error _ => .error (.bind ⟨ident.span, .duplicate ident.text⟩)

def declareType (ident : Ident) (ty : Ty) : Resolve Unit := fun bindings =>
  let ⟨symbols, scopes, owner⟩ := bindings
  match scopes.declareType? ident.text ty with
  | some scopes => .ok ((), ⟨symbols, scopes, owner⟩)
  | none => .error (.bind ⟨ident.span, .duplicate ident.text⟩)

def declareLocal (ident : Ident) (ty : Ty) : Resolve SymbolId := do
  let id ← addSymbol ⟨ident.text, ty, .localVar, ident.span, (← get).owner⟩
  declare ident id
  return id

def typeArity : Ty → Nat
  | .seq => 1
  | _ => 0

mutual

/-- The type that an annotation stands for. A generic type takes exactly its arguments, and other
types take none. -/
def typeOf (scopes : Scopes) : TypeRef → Except CompileError Ty
  | ⟨name, args, span⟩ =>
    match scopes.lookupType? name.text with
    | none => .error (.bind ⟨span, .undefinedType name.text⟩)
    | some ty =>
      if args.length ≠ typeArity ty then
        .error (.bind ⟨span, .genericArity name.text (typeArity ty) args.length⟩)
      else
        match ty with
        | .seq => (typesOf scopes args).map Ty.seqOf
        | other => .ok other

def typesOf (scopes : Scopes) : List TypeRef → Except CompileError (List Ty)
  | [] => .ok []
  | first :: rest => do
    let ty ← typeOf scopes first
    let types ← typesOf scopes rest
    return ty :: types

end

def resolveType (type : TypeRef) : Resolve Ty := do typeOf (← get).scopes type

def checkIndex (index : Nat) (ident : Ident) (what : String) : Resolve Unit :=
  if index ≤ maxIndex then pure () else failBind ident.span (.tooMany what)

def declareRecordName (name : Ident) (span : Span) : Resolve SymbolId := do
  let id := (← get).symbols.size
  let ty := Ty.record id name.text
  let _ ← addSymbol ⟨name.text, ty, .record [], span, none⟩
  declare name id
  declareType name ty
  return id

def declareFields (record : SymbolId) (index : Nat) (seen : Std.HashSet String)
    (ids : Array SymbolId) :
    List (Binding .parsed) → Resolve (List SymbolId)
  | [] => return ids.toList
  | field :: rest => do
    if seen.contains field.name.text then failBind field.name.span (.duplicate field.name.text)
    else
      let ty ← resolveType field.type
      checkIndex index field.name "fields"
      let id ← addSymbol ⟨field.name.text, ty, .field record index, field.name.span, none⟩
      declareFields record (index + 1) (seen.insert field.name.text) (ids.push id) rest

def resolveTypes (types : Array Ty) : List (Binding .parsed) → Resolve (List Ty)
  | [] => return types.toList
  | first :: rest => do
    let ty ← resolveType first.type
    resolveTypes (types.push ty) rest

def declareParams (owner : SymbolId) (index : Nat) (ids : Array SymbolId) :
    List (Binding .parsed × Ty) → Resolve (List SymbolId)
  | [] => return ids.toList
  | (param, ty) :: rest => do
    checkIndex index param.name "parameters"
    let id ← addSymbol ⟨param.name.text, ty, .param index, param.name.span, some owner⟩
    declare param.name id
    declareParams owner (index + 1) (ids.push id) rest

def declareFunction (name : Ident) (params : List (Binding .parsed)) (returns : TypeRef)
    (span : Span) : Resolve SymbolId := do
  let returnType ← resolveType returns
  let scope ← addScope
  let id ← addSymbol ⟨name.text, .function, .function [] returnType scope, span, none⟩
  declare name id
  let types ← resolveTypes #[] params
  let previous ← enterScope scope
  let ids ← declareParams id 0 #[] (params.zip types)
  let _ ← enterScope previous
  setKind id (.function ids returnType scope)
  return id

def declareRecordNames (ids : Array (Option SymbolId)) :
    List PStmt → Resolve (List (Option SymbolId))
  | [] => return ids.toList
  | .record name _ span _ :: rest => do
    let id ← declareRecordName name span
    declareRecordNames (ids.push (some id)) rest
  | _ :: rest => declareRecordNames (ids.push none) rest

def declareAllFields : List (PStmt × Option SymbolId) → Resolve Unit
  | [] => return ()
  | (.record _ fields _ _, some id) :: rest => do
    let ids ← declareFields id 0 ∅ #[] fields
    setKind id (.record ids)
    declareAllFields rest
  | _ :: rest => declareAllFields rest

def declareFunctions (ids : Array (Option SymbolId)) :
    List (PStmt × Option SymbolId) → Resolve (List (Option SymbolId))
  | [] => return ids.toList
  | (.func name params returns _ span _, _) :: rest => do
    let id ← declareFunction name params returns span
    declareFunctions (ids.push (some id)) rest
  | (_, id) :: rest => declareFunctions (ids.push id) rest

/-- Declares the records and functions of a list of statements, and gives for each statement the
symbol that it declares. -/
def hoist (stmts : List PStmt) : Resolve (List (Option SymbolId)) := do
  let records ← declareRecordNames #[] stmts
  declareAllFields (stmts.zip records)
  declareFunctions #[] (stmts.zip records)

end Resolve

end LetChain
