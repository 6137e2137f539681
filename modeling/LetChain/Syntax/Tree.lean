import LetChain.Span
import LetChain.Syntax.Operator

/-! Syntax trees. A tree is decorated as its phase says: a parsed tree carries nothing, a typed one
carries the type of every expression and the symbol of every name. -/

namespace LetChain

structure Phase where
  Ty : Type
  BlockTy : Type
  Sym : Type

abbrev Phase.parsed : Phase := ⟨Unit, Unit, Unit⟩

structure Ident where
  text : String
  span : Span
  deriving DecidableEq

structure TypeRef where
  name : Ident
  args : List TypeRef
  span : Span

structure Binding (p : Phase) where
  name : Ident
  type : TypeRef
  sym : p.Sym

mutual

/-- `ifOnly` and `foreach` assign to the let around them and mean nothing elsewhere. -/
inductive Expr (p : Phase) : Type where
  | number (value : Float) (span : Span) (ty : p.Ty)
  | string (value : String) (span : Span) (ty : p.Ty)
  | bool (value : Bool) (span : Span) (ty : p.Ty)
  | named (name : Ident) (sym : p.Sym) (span : Span) (ty : p.Ty)
  | binary (op : Operator) (lhs rhs : Expr p) (span : Span) (ty : p.Ty)
  | range (first limit : Expr p) (step : Option (Expr p)) (span : Span) (ty : p.Ty)
  | call (name : Ident) (args : List (Expr p)) (sym : p.Sym) (span : Span) (ty : p.Ty)
  | construct (name : Ident) (args : List (Expr p)) (sym : p.Sym) (span : Span) (ty : p.Ty)
  | member (base : Expr p) (field : Ident) (sym : p.Sym) (span : Span) (ty : p.Ty)
  | ifElse (cond : Expr p) (yes no : Block p) (span : Span) (ty : p.Ty)
  | ifOnly (cond : Expr p) (yes : Block p) (span : Span) (ty : p.Ty)
  | foreach (element : Ident) (elementType : TypeRef) (source : Expr p) (body : Block p)
      (sym : p.Sym) (span : Span) (ty : p.Ty)
  | block (body : Block p) (ty : p.Ty)

structure Block (p : Phase) : Type where
  stmts : List (Stmt p)
  span : Span
  ty : p.BlockTy

/-- A let assigns its first body and then the chained ones in order. -/
inductive Stmt (p : Phase) : Type where
  | letIn (name : Ident) (type : TypeRef) (first : Expr p) (chained : List (Expr p))
      (span : Span) (sym : p.Sym)
  | func (name : Ident) (params : List (Binding p)) (returns : TypeRef) (body : Block p)
      (span : Span) (sym : p.Sym)
  | record (name : Ident) (fields : List (Binding p)) (span : Span) (sym : p.Sym)
  | expr (value : Expr p)

end

structure Module (p : Phase) where
  stmts : List (Stmt p)

def Expr.span {p : Phase} : Expr p → Span
  | .number _ span _ => span
  | .string _ span _ => span
  | .bool _ span _ => span
  | .named _ _ span _ => span
  | .binary _ _ _ span _ => span
  | .range _ _ _ span _ => span
  | .call _ _ _ span _ => span
  | .construct _ _ _ span _ => span
  | .member _ _ _ span _ => span
  | .ifElse _ _ _ span _ => span
  | .ifOnly _ _ span _ => span
  | .foreach _ _ _ _ _ span _ => span
  | .block body _ => body.span

def Expr.ty {p : Phase} : Expr p → p.Ty
  | .number _ _ ty => ty
  | .string _ _ ty => ty
  | .bool _ _ ty => ty
  | .named _ _ _ ty => ty
  | .binary _ _ _ _ ty => ty
  | .range _ _ _ _ ty => ty
  | .call _ _ _ _ ty => ty
  | .construct _ _ _ _ ty => ty
  | .member _ _ _ _ ty => ty
  | .ifElse _ _ _ _ ty => ty
  | .ifOnly _ _ _ ty => ty
  | .foreach _ _ _ _ _ _ ty => ty
  | .block _ ty => ty

def Expr.isSelfAssigning {p : Phase} : Expr p → Bool
  | .ifOnly .. | .foreach .. => true
  | _ => false

def Stmt.span {p : Phase} : Stmt p → Span
  | .letIn _ _ _ _ span _ => span
  | .func _ _ _ _ span _ => span
  | .record _ _ span _ => span
  | .expr value => value.span

end LetChain
