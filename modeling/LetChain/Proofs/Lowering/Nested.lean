import LetChain.Lowering.Layout
import LetChain.Proofs.Typing.Nodes

/-! What a tree declares, as a layout meets it: one declaration after another, and inside a function
those of its body. Walking over a tree is walking over these. -/

namespace LetChain

inductive Nest where
  | nil
  | localVar (part : Part) (sym : SymbolId) (declares : part.declaration? = some (.localVar sym))
      (rest : Nest)
  | record (name : Ident) (fields : List (Binding .typed)) (span : Span) (sym : SymbolId) (rest : Nest)
  | function (name : Ident) (params : List (Binding .typed)) (returns : TypeRef)
      (body : Block .typed) (span : Span) (sym : SymbolId) (inner rest : Nest)

namespace Nest

def append : Nest → Nest → Nest
  | nil, nest => nest
  | localVar part sym declares rest, nest => localVar part sym declares (rest.append nest)
  | record name fields span sym rest, nest => record name fields span sym (rest.append nest)
  | function name params returns body span sym inner rest, nest =>
    function name params returns body span sym inner (rest.append nest)

instance : Append Nest := ⟨append⟩

theorem append_def (first rest : Nest) : first ++ rest = first.append rest := rfl

/-- The nodes that declare something, with the functions that they belong to. -/
def nodes (owner : Option SymbolId) : Nest → List Node
  | nil => []
  | localVar part _ _ rest => ⟨owner, part⟩ :: rest.nodes owner
  | record name fields span sym rest =>
    ⟨owner, .stmt (.record name fields span sym)⟩ :: rest.nodes owner
  | function name params returns body span sym inner rest =>
    ⟨owner, .stmt (.func name params returns body span sym)⟩ ::
      (inner.nodes (some sym) ++ rest.nodes owner)

@[simp] theorem nodes_append (owner : Option SymbolId) (first rest : Nest) :
    (first ++ rest).nodes owner = first.nodes owner ++ rest.nodes owner := by
  rw [append_def]
  induction first <;> simp_all [append, nodes]

inductive Like (related : Stmt .typed → Stmt .typed → Prop) : Nest → Nest → Prop
  | nil : Like related nil nil
  | localVar {part part' sym sym' declares declares' rest rest'} : Like related rest rest' →
      Like related (localVar part sym declares rest) (localVar part' sym' declares' rest')
  | record {name fields span sym name' fields' span' sym' rest rest'} :
      related (.record name fields span sym) (.record name' fields' span' sym') →
      Like related rest rest' →
      Like related (record name fields span sym rest) (record name' fields' span' sym' rest')
  | function {name params returns body span sym name' params' returns' body' span' sym'}
      {inner inner' rest rest'} :
      related (.func name params returns body span sym)
        (.func name' params' returns' body' span' sym') →
      Like related inner inner' → Like related rest rest' →
      Like related (function name params returns body span sym inner rest)
        (function name' params' returns' body' span' sym' inner' rest')

theorem Like.append {related : Stmt .typed → Stmt .typed → Prop} {nest nest' more more' : Nest}
    (first : Like related nest nest') (rest : Like related more more') :
    Like related (nest ++ more) (nest' ++ more') := by
  induction first with
  | nil => exact rest
  | localVar _ ih => exact .localVar ih
  | record here _ ih => exact .record here ih
  | function here inside _ _ ih => exact .function here inside ih

end Nest

mutual

def Expr.nest : Expr .typed → Nest
  | .number .. | .string .. | .bool .. | .named .. => .nil
  | .binary _ lhs rhs _ _ => lhs.nest ++ rhs.nest
  | .range first limit none _ _ => first.nest ++ limit.nest
  | .range first limit (some step) _ _ => first.nest ++ limit.nest ++ step.nest
  | .call _ args _ _ _ => Expr.allNested args
  | .construct _ args _ _ _ => Expr.allNested args
  | .member base _ _ _ _ => base.nest
  | .ifElse cond yes no _ _ => cond.nest ++ yes.nest ++ no.nest
  | .ifOnly cond yes _ _ => cond.nest ++ yes.nest
  | .foreach element type source body sym span ty =>
    .localVar (.expr (.foreach element type source body sym span ty)) sym rfl
      (source.nest ++ body.nest)
  | .block body _ => body.nest

def Expr.allNested : List (Expr .typed) → Nest
  | [] => .nil
  | first :: rest => first.nest ++ Expr.allNested rest

def Block.nest : Block .typed → Nest
  | ⟨stmts, _, _⟩ => Stmt.allNested stmts

def Stmt.allNested : List (Stmt .typed) → Nest
  | [] => .nil
  | first :: rest => first.nest ++ Stmt.allNested rest

def Stmt.nest : Stmt .typed → Nest
  | .letIn name type first chained span sym =>
    .localVar (.stmt (.letIn name type first chained span sym)) sym rfl
      (first.nest ++ Expr.allNested chained)
  | .func name params returns body span sym =>
    .function name params returns body span sym body.nest .nil
  | .record name fields span sym => .record name fields span sym .nil
  | .expr value => value.nest

end

/-! ### Nodes of a tree -/

namespace Node

def declaring (nodes : List Node) : List Node := nodes.filter (·.part.declaration?.isSome)

@[simp] theorem declaring_append (first rest : List Node) :
    declaring (first ++ rest) = declaring first ++ declaring rest :=
  List.filter_append ..

@[simp] theorem declaring_cons (owner : Option SymbolId) (part : Part) (rest : List Node) :
    declaring (⟨owner, part⟩ :: rest) =
      if part.declaration?.isSome then ⟨owner, part⟩ :: declaring rest else declaring rest :=
  List.filter_cons

theorem declared_declaring (nodes : List Node) : declared (declaring nodes) = declared nodes := by
  rw [declared, declaring, List.filterMap_filter, declared]
  congr 1
  funext node
  cases found : node.part.declaration? <;> simp

end Node

section Nodes

attribute [local simp] Expr.nodes Expr.allNodes Block.nodes Stmt.allNodes Stmt.nodes Expr.nest
  Expr.allNested Block.nest Stmt.allNested Stmt.nest Nest.nodes Part.declaration?

mutual

theorem Expr.declaring_nodes : ∀ (e : Expr .typed) (owner : Option SymbolId),
    Node.declaring (e.nodes owner) = e.nest.nodes owner
  | .number .., _ | .string .., _ | .bool .., _ | .named .., _ => rfl
  | .binary _ lhs rhs _ _, _ => by simp [lhs.declaring_nodes, rhs.declaring_nodes]
  | .range first limit none _ _, _ => by simp [first.declaring_nodes, limit.declaring_nodes]
  | .range first limit (some step) _ _, _ => by
    simp [first.declaring_nodes, limit.declaring_nodes, step.declaring_nodes]
  | .call _ args _ _ _, _ | .construct _ args _ _ _, _ => by simp [Expr.declaring_allNodes args]
  | .member base _ _ _ _, _ => by simp [base.declaring_nodes]
  | .ifElse cond yes no _ _, _ => by
    simp [cond.declaring_nodes, yes.declaring_nodes, no.declaring_nodes]
  | .ifOnly cond yes _ _, _ => by simp [cond.declaring_nodes, yes.declaring_nodes]
  | .foreach _ _ source body _ _ _, _ => by simp [source.declaring_nodes, body.declaring_nodes]
  | .block body _, _ => by simp [body.declaring_nodes]

theorem Expr.declaring_allNodes : ∀ (es : List (Expr .typed)) (owner : Option SymbolId),
    Node.declaring (Expr.allNodes owner es) = (Expr.allNested es).nodes owner
  | [], _ => rfl
  | first :: rest, _ => by simp [first.declaring_nodes, Expr.declaring_allNodes rest]

theorem Block.declaring_nodes : ∀ (body : Block .typed) (owner : Option SymbolId),
    Node.declaring (body.nodes owner) = body.nest.nodes owner
  | ⟨stmts, _, _⟩, _ => by simp [Stmt.declaring_allNodes stmts]

theorem Stmt.declaring_allNodes : ∀ (stmts : List (Stmt .typed)) (owner : Option SymbolId),
    Node.declaring (Stmt.allNodes owner stmts) = (Stmt.allNested stmts).nodes owner
  | [], _ => rfl
  | first :: rest, _ => by simp [first.declaring_nodes, Stmt.declaring_allNodes rest]

theorem Stmt.declaring_nodes : ∀ (stmt : Stmt .typed) (owner : Option SymbolId),
    Node.declaring (stmt.nodes owner) = stmt.nest.nodes owner
  | .letIn _ _ first chained _ _, _ => by simp [first.declaring_nodes, Expr.declaring_allNodes chained]
  | .func _ _ _ body _ sym, _ => by simp [body.declaring_nodes]
  | .record .., _ => rfl
  | .expr value, _ => by simp [value.declaring_nodes]

end

theorem Stmt.allDeclarations_nest (stmts : List (Stmt .typed)) (owner : Option SymbolId) :
    Stmt.allDeclarations stmts = Node.declared ((Stmt.allNested stmts).nodes owner) := by
  rw [← Stmt.declaring_allNodes, Node.declared_declaring, Stmt.allDeclarations_eq owner]

end Nodes

/-! ### Layouts of a tree -/

namespace Layout

variable (symbols : Symbols)

def addNest (outer : Option String) (layout : Layout) : Nest → Lay Layout
  | .nil => pure layout
  | .localVar _ _ _ rest => addNest outer layout rest
  | .record name _ _ sym rest => do
    let layout ← addRecord symbols layout name.text sym
    addNest outer layout rest
  | .function name params _ body _ sym inner rest => do
    let (layout, made) ← addFunction layout outer name.text params.length body sym
    let layout ← addNest (some made) layout inner
    addNest outer layout rest

@[simp] theorem addNest_append (outer : Option String) (layout : Layout) (nest more : Nest) :
    addNest symbols outer layout (nest ++ more) =
      addNest symbols outer layout nest >>= fun layout => addNest symbols outer layout more := by
  rw [Nest.append_def]
  induction nest generalizing outer layout with
  | nil => simp [Nest.append, addNest]
  | localVar _ _ _ _ ih => exact ih outer layout
  | record _ _ _ _ _ ih => simp [Nest.append, addNest, ih]
  | function _ _ _ _ _ _ _ _ _ ih => simp [Nest.append, addNest, ih]

section Walk

attribute [local simp] addExpr addExprs addBlock addStmts addStmt Expr.nest Expr.allNested Block.nest
  Stmt.allNested Stmt.nest addNest

mutual

theorem addExpr_eq : ∀ (e : Expr .typed) (layout : Layout) (outer : Option String),
    addExpr symbols outer layout e = addNest symbols outer layout e.nest
  | .number .., _, _ | .string .., _, _ | .bool .., _, _ | .named .., _, _ => by simp; rfl
  | .binary _ lhs rhs _ _, _, _ => by simp [addExpr_eq lhs, addExpr_eq rhs]
  | .range first limit none _ _, _, _ => by simp [addExpr_eq first, addExpr_eq limit]
  | .range first limit (some step) _ _, _, _ => by
    simp [addExpr_eq first, addExpr_eq limit, addExpr_eq step]
  | .call _ args _ _ _, _, _ | .construct _ args _ _ _, _, _ => by simp [addExprs_eq args]
  | .member base _ _ _ _, _, _ => by simp [addExpr_eq base]
  | .ifElse cond yes no _ _, _, _ => by simp [addExpr_eq cond, addBlock_eq yes, addBlock_eq no]
  | .ifOnly cond yes _ _, _, _ => by simp [addExpr_eq cond, addBlock_eq yes]
  | .foreach _ _ source body _ _ _, _, _ => by simp [addExpr_eq source, addBlock_eq body]
  | .block body _, _, _ => by simp [addBlock_eq body]

theorem addExprs_eq : ∀ (es : List (Expr .typed)) (layout : Layout) (outer : Option String),
    addExprs symbols outer layout es = addNest symbols outer layout (Expr.allNested es)
  | [], _, _ => rfl
  | first :: rest, _, _ => by simp [addExpr_eq first, addExprs_eq rest]

theorem addBlock_eq : ∀ (body : Block .typed) (layout : Layout) (outer : Option String),
    addBlock symbols outer layout body = addNest symbols outer layout body.nest
  | ⟨stmts, _, _⟩, _, _ => by simp [addStmts_eq stmts]

theorem addStmts_eq : ∀ (stmts : List (Stmt .typed)) (layout : Layout) (outer : Option String),
    addStmts symbols outer layout stmts = addNest symbols outer layout (Stmt.allNested stmts)
  | [], _, _ => rfl
  | first :: rest, _, _ => by simp [addStmt_eq first, addStmts_eq rest]

theorem addStmt_eq : ∀ (stmt : Stmt .typed) (layout : Layout) (outer : Option String),
    addStmt symbols outer layout stmt = addNest symbols outer layout stmt.nest
  | .letIn _ _ first chained _ _, _, _ => by simp [addExpr_eq first, addExprs_eq chained]
  | .func _ _ _ body _ _, _, _ => by simp [addBlock_eq body]
  | .record .., _, _ => by simp
  | .expr value, _, _ => by simp [addExpr_eq value]

end

end Walk

end Layout

end LetChain
