import Mathlib
import LetChain.Lowering.Layout
import LetChain.Proofs.Typing.Nodes

/-! The parts of a function's body that its own routine is made from, which are all but those inside
other functions, and what the routine needs for them. -/

namespace LetChain

mutual

def Expr.parts : Expr .typed → List Part
  | .number value span ty => [.expr (.number value span ty)]
  | .string value span ty => [.expr (.string value span ty)]
  | .bool value span ty => [.expr (.bool value span ty)]
  | .named name sym span ty => [.expr (.named name sym span ty)]
  | .binary op lhs rhs span ty => .expr (.binary op lhs rhs span ty) :: (lhs.parts ++ rhs.parts)
  | .range first limit none span ty =>
    .expr (.range first limit none span ty) :: (first.parts ++ limit.parts)
  | .range first limit (some step) span ty =>
    .expr (.range first limit (some step) span ty) :: (first.parts ++ limit.parts ++ step.parts)
  | .call name args sym span ty => .expr (.call name args sym span ty) :: Expr.allParts args
  | .construct name args sym span ty =>
    .expr (.construct name args sym span ty) :: Expr.allParts args
  | .member base field sym span ty => .expr (.member base field sym span ty) :: base.parts
  | .ifElse cond yes no span ty =>
    .expr (.ifElse cond yes no span ty) :: (cond.parts ++ yes.parts ++ no.parts)
  | .ifOnly cond yes span ty => .expr (.ifOnly cond yes span ty) :: (cond.parts ++ yes.parts)
  | .foreach element elementType source body sym span ty =>
    .expr (.foreach element elementType source body sym span ty) :: (source.parts ++ body.parts)
  | .block body ty => .expr (.block body ty) :: body.parts

def Expr.allParts : List (Expr .typed) → List Part
  | [] => []
  | first :: rest => first.parts ++ Expr.allParts rest

def Block.parts : Block .typed → List Part
  | ⟨stmts, span, ty⟩ => .block ⟨stmts, span, ty⟩ :: Stmt.allParts stmts

def Stmt.allParts : List (Stmt .typed) → List Part
  | [] => []
  | first :: rest => first.parts ++ Stmt.allParts rest

def Stmt.parts : Stmt .typed → List Part
  | .letIn name type first chained span sym =>
    .stmt (.letIn name type first chained span sym) :: (first.parts ++ Expr.allParts chained)
  | .func name params returns body span sym =>
    [.stmt (.func name params returns body span sym)]
  | .record name fields span sym => [.stmt (.record name fields span sym)]
  | .expr value => .stmt (.expr value) :: value.parts

end

theorem Expr.mem_parts (e : Expr .typed) : Part.expr e ∈ e.parts := by
  cases e with
  | range first limit step span ty => cases step <;> simp [Expr.parts]
  | _ => simp [Expr.parts]

/-! ### Nodes, function by function -/

/-- A node that belongs to the function around, or to one of the functions declared. -/
def Node.Within (owner : Option SymbolId) (parts : List Part) (declared : List Declaration)
    (node : Node) : Prop :=
  (∃ part ∈ parts, node = ⟨owner, part⟩) ∨
    ∃ function, .function function ∈ declared ∧
      ∃ part ∈ function.body.parts, node = ⟨some function.sym, part⟩

namespace Node.Within

variable {owner : Option SymbolId} {parts parts' : List Part} {declared declared' : List Declaration}
  {node : Node}

theorem nil : ¬node.Within owner [] [] := by
  simp [Node.Within]

theorem cons {part : Part} :
    node.Within owner (part :: parts) declared ↔
      node = ⟨owner, part⟩ ∨ node.Within owner parts declared := by
  simp [Node.Within, or_assoc]

theorem append :
    node.Within owner (parts ++ parts') (declared ++ declared') ↔
      node.Within owner parts declared ∨ node.Within owner parts' declared' := by
  simp only [Node.Within, List.mem_append, or_and_right, exists_or]
  exact or_or_or_comm

theorem localVar {sym : SymbolId} :
    node.Within owner parts (.localVar sym :: declared) ↔ node.Within owner parts declared := by
  simp [Node.Within]

theorem record {sym : SymbolId} {name : String} :
    node.Within owner parts [.record sym name] ↔ node.Within owner parts [] := by
  simp [Node.Within]

theorem function (definition : FunctionDef) {part : Part}
    (inner : node.Within (some definition.sym) definition.body.parts declared ↔
      node ∈ definition.body.nodes (some definition.sym)) :
    node.Within owner [part] (.function definition :: declared) ↔
      node ∈ ⟨owner, part⟩ :: definition.body.nodes (some definition.sym) := by
  rw [List.mem_cons, ← inner]
  simp [Node.Within, or_and_right, exists_or]

end Node.Within

section Nodes

open Node.Within

variable {node : Node}

mutual

theorem Expr.mem_nodes_iff : ∀ (e : Expr .typed) {owner : Option SymbolId},
    node ∈ e.nodes owner ↔ node.Within owner e.parts e.declarations
  | .number .., _ | .string .., _ | .bool .., _ | .named .., _ => by
    simp [Expr.nodes, Expr.parts, Expr.declarations, cons, nil]
  | .binary _ lhs rhs _ _, _ => by
    simp [Expr.nodes, Expr.parts, Expr.declarations, cons, append, lhs.mem_nodes_iff,
      rhs.mem_nodes_iff]
  | .range first limit none _ _, _ => by
    simp [Expr.nodes, Expr.parts, Expr.declarations, cons, append, first.mem_nodes_iff,
      limit.mem_nodes_iff]
  | .range first limit (some step) _ _, _ => by
    simp only [Expr.nodes, Expr.parts, Expr.declarations, List.mem_cons, List.mem_append, cons,
      append, first.mem_nodes_iff, limit.mem_nodes_iff, step.mem_nodes_iff]
  | .call _ args _ _ _, _ => by
    simp [Expr.nodes, Expr.parts, Expr.declarations, cons, Expr.mem_allNodes_iff args]
  | .construct _ args _ _ _, _ => by
    simp [Expr.nodes, Expr.parts, Expr.declarations, cons, Expr.mem_allNodes_iff args]
  | .member base _ _ _ _, _ => by
    simp [Expr.nodes, Expr.parts, Expr.declarations, cons, base.mem_nodes_iff]
  | .ifElse cond yes no _ _, _ => by
    simp only [Expr.nodes, Expr.parts, Expr.declarations, List.mem_cons, List.mem_append, cons,
      append, cond.mem_nodes_iff, yes.mem_nodes_iff, no.mem_nodes_iff]
  | .ifOnly cond yes _ _, _ => by
    simp [Expr.nodes, Expr.parts, Expr.declarations, cons, append, cond.mem_nodes_iff,
      yes.mem_nodes_iff]
  | .foreach _ _ source body _ _ _, _ => by
    simp [Expr.nodes, Expr.parts, Expr.declarations, cons, append, localVar, source.mem_nodes_iff,
      body.mem_nodes_iff]
  | .block body _, _ => by
    simp [Expr.nodes, Expr.parts, Expr.declarations, cons, body.mem_nodes_iff]

theorem Expr.mem_allNodes_iff : ∀ (es : List (Expr .typed)) {owner : Option SymbolId},
    node ∈ Expr.allNodes owner es ↔
      node.Within owner (Expr.allParts es) (Expr.allDeclarations es)
  | [], _ => by simp [Expr.allNodes, Expr.allParts, Expr.allDeclarations, nil]
  | first :: rest, _ => by
    simp [Expr.allNodes, Expr.allParts, Expr.allDeclarations, append, first.mem_nodes_iff,
      Expr.mem_allNodes_iff rest]

theorem Block.mem_nodes_iff : ∀ (body : Block .typed) {owner : Option SymbolId},
    node ∈ body.nodes owner ↔ node.Within owner body.parts body.declarations
  | ⟨stmts, _, _⟩, _ => by
    simp [Block.nodes, Block.parts, Block.declarations, cons, Stmt.mem_allNodes_iff stmts]

theorem Stmt.mem_allNodes_iff : ∀ (stmts : List (Stmt .typed)) {owner : Option SymbolId},
    node ∈ Stmt.allNodes owner stmts ↔
      node.Within owner (Stmt.allParts stmts) (Stmt.allDeclarations stmts)
  | [], _ => by simp [Stmt.allNodes, Stmt.allParts, Stmt.allDeclarations, nil]
  | first :: rest, _ => by
    simp [Stmt.allNodes, Stmt.allParts, Stmt.allDeclarations, append, first.mem_nodes_iff,
      Stmt.mem_allNodes_iff rest]

theorem Stmt.mem_nodes_iff : ∀ (stmt : Stmt .typed) {owner : Option SymbolId},
    node ∈ stmt.nodes owner ↔ node.Within owner stmt.parts stmt.declarations
  | .letIn _ _ first chained _ _, _ => by
    simp [Stmt.nodes, Stmt.parts, Stmt.declarations, cons, append, localVar, first.mem_nodes_iff,
      Expr.mem_allNodes_iff chained]
  | .func _ params _ body _ sym, _ => by
    rw [Stmt.nodes, Stmt.parts, Stmt.declarations]
    exact (Node.Within.function ⟨sym, params.length, body⟩ body.mem_nodes_iff.symm).symm
  | .record .., _ => by
    simp [Stmt.nodes, Stmt.parts, Stmt.declarations, cons, record, nil]
  | .expr value, _ => by
    simp [Stmt.nodes, Stmt.parts, Stmt.declarations, cons, value.mem_nodes_iff]

end

end Nodes

/-! ### What a routine needs -/

/-- What a routine has only so many of. -/
inductive Resource where
  | locals
  | iterators
  | labels

namespace Resource

def limit : Resource → Nat
  | locals | iterators => Draft.maxSlots
  | labels => Draft.maxLabels

def text : Resource → String
  | locals => "locals"
  | iterators => "iterators"
  | labels => "labels"

end Resource

def Draft.used (draft : Draft) : Resource → Nat
  | .locals => draft.locals
  | .iterators => draft.iterators
  | .labels => draft.labels.size

namespace Part

/-- How much of a resource a part takes, apart from the parts in it. -/
def cost (resource : Resource) : Part → Nat
  | .stmt (.letIn ..) =>
    match resource with
    | .locals => 1
    | .iterators | .labels => 0
  | .expr (.foreach ..) =>
    match resource with
    | .locals | .iterators => 1
    | .labels => 2
  | .expr (.ifElse ..) =>
    match resource with
    | .labels => 2
    | .locals | .iterators => 0
  | .expr (.ifOnly ..) =>
    match resource with
    | .labels => 1
    | .locals | .iterators => 0
  | _ => 0

def costs (parts : List Part) (resource : Resource) : Nat := (parts.map (cost resource)).sum

@[simp] theorem costs_nil (resource : Resource) : costs [] resource = 0 := rfl

@[simp] theorem costs_cons (part : Part) (parts : List Part) (resource : Resource) :
    costs (part :: parts) resource = part.cost resource + costs parts resource := by
  simp [costs]

@[simp] theorem costs_append (parts parts' : List Part) (resource : Resource) :
    costs (parts ++ parts') resource = costs parts resource + costs parts' resource := by
  simp [costs]

/-- Sequences have no equality. -/
def ComparesSequences : Part → Prop
  | .expr (.binary op lhs _ _ _) => (op = .eq ∨ op = .ne) ∧ ∃ args, lhs.ty = .seqOf args
  | _ => False

def Missing (layout : Layout) : Part → Prop
  | .expr (.call _ _ sym _ _) => layout.functionIds[sym]? = none
  | .expr (.construct _ _ sym _ _) => layout.recordIds[sym]? = none
  | .expr (.member base _ _ _ _) =>
    ∃ record name, base.ty = .record record name ∧ layout.recordIds[record]? = none
  | _ => False

end Part

end LetChain
