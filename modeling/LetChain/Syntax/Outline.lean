import LetChain.Number.Notation
import LetChain.Syntax.Tree
import LetChain.Text.Quoted

/-! A tree as text: one line for each node, two spaces deeper than its parent, with its span and,
in a typed tree, its type. -/

namespace LetChain

class PhaseText (p : Phase) where
  ty : p.Ty → String
  blockTy : p.BlockTy → String

instance : PhaseText .parsed := ⟨fun _ => "", fun _ => ""⟩

namespace Outline

def line (depth : Nat) (text : String) : String :=
  String.ofList (List.replicate (2 * depth) ' ') ++ text

mutual

def typeRef : TypeRef → String
  | ⟨name, [], _⟩ => name.text
  | ⟨name, first :: rest, _⟩ => name.text ++ "<" ++ typeRef first ++ moreTypes rest ++ ">"

def moreTypes : List TypeRef → String
  | [] => ""
  | type :: rest => ", " ++ typeRef type ++ moreTypes rest

end

variable {p : Phase} [PhaseText p]

def binding (b : Binding p) : String := b.name.text ++ ": " ++ typeRef b.type

def place (span : Span) (ty : String) : String := " (" ++ span.text ++ ty ++ ")"

mutual

def expr (depth : Nat) : Expr p → List String
  | .number value span ty =>
    [line depth ("number " ++ Number.text value ++ place span (PhaseText.ty ty))]
  | .string value span ty =>
    [line depth ("string " ++ Text.quoted value ++ place span (PhaseText.ty ty))]
  | .bool value span ty =>
    [line depth ((if value then "bool true" else "bool false") ++ place span (PhaseText.ty ty))]
  | .named name _ span ty =>
    [line depth ("named " ++ name.text ++ place span (PhaseText.ty ty))]
  | .binary op lhs rhs span ty =>
    line depth ("binary " ++ op.name ++ place span (PhaseText.ty ty)) ::
      (expr (depth + 1) lhs ++ expr (depth + 1) rhs)
  | .range first limit step span ty =>
    line depth ("range" ++ place span (PhaseText.ty ty)) ::
      (expr (depth + 1) first ++ expr (depth + 1) limit ++
        match step with
        | some step => expr (depth + 1) step
        | none => [])
  | .call name args _ span ty =>
    line depth ("call " ++ name.text ++ place span (PhaseText.ty ty)) :: exprs (depth + 1) args
  | .construct name args _ span ty =>
    line depth ("construct " ++ name.text ++ place span (PhaseText.ty ty)) :: exprs (depth + 1) args
  | .member base field _ span ty =>
    line depth ("member " ++ field.text ++ place span (PhaseText.ty ty)) :: expr (depth + 1) base
  | .ifElse cond yes no span ty =>
    line depth ("if" ++ place span (PhaseText.ty ty)) ::
      (expr (depth + 1) cond ++ block (depth + 1) yes ++ block (depth + 1) no)
  | .ifOnly cond yes span ty =>
    line depth ("if" ++ place span (PhaseText.ty ty)) ::
      (expr (depth + 1) cond ++ block (depth + 1) yes)
  | .foreach element elementType source body _ span ty =>
    line depth ("foreach " ++ element.text ++ ": " ++ typeRef elementType ++
      place span (PhaseText.ty ty)) :: (expr (depth + 1) source ++ block (depth + 1) body)
  | .block body _ => block depth body

def exprs (depth : Nat) : List (Expr p) → List String
  | [] => []
  | first :: rest => expr depth first ++ exprs depth rest

def chained (depth : Nat) : List (Expr p) → List String
  | [] => []
  | first :: rest => line depth "where" :: (expr (depth + 1) first ++ chained depth rest)

def block (depth : Nat) : Block p → List String
  | ⟨body, span, ty⟩ => line depth ("block" ++ place span (PhaseText.blockTy ty)) :: stmts (depth + 1) body

def stmts (depth : Nat) : List (Stmt p) → List String
  | [] => []
  | first :: rest => stmt depth first ++ stmts depth rest

def stmt (depth : Nat) : Stmt p → List String
  | .letIn name type first rest span _ =>
    line depth ("let " ++ name.text ++ ": " ++ typeRef type ++ place span "") ::
      (expr (depth + 1) first ++ chained (depth + 1) rest)
  | .func name params returns body _ _ =>
    line depth ("func " ++ name.text ++ "(" ++ String.intercalate ", " (params.map binding) ++
      ") -> " ++ typeRef returns) :: block (depth + 1) body
  | .record name fields _ _ =>
    line depth ("type " ++ name.text) ::
      fields.map fun field => line (depth + 1) ("field " ++ binding field)
  | .expr value => expr depth value

end

def ofLines (lines : List String) : String := String.join (lines.map (· ++ "\n"))

end Outline

def Expr.outline {p : Phase} [PhaseText p] (e : Expr p) : String :=
  Outline.ofLines (Outline.expr 0 e)

def Module.outline {p : Phase} [PhaseText p] (m : Module p) : String :=
  Outline.ofLines (Outline.stmts 0 m.stmts)

end LetChain
