import LetChain.Proofs.Typing.Judgment

/-! The nodes of a typed tree and what their decorations must be: the symbol of a node has the right
kind and name, and its type follows from the types of the nodes directly in it. -/

namespace LetChain

/-! ### Trees without their decorations -/

def Binding.erase (b : Binding .typed) : Binding .parsed := ⟨b.name, b.type, ()⟩

mutual

def Expr.erase : Expr .typed → Expr .parsed
  | .number value span _ => .number value span ()
  | .string value span _ => .string value span ()
  | .bool value span _ => .bool value span ()
  | .named name _ span _ => .named name () span ()
  | .binary op lhs rhs span _ => .binary op lhs.erase rhs.erase span ()
  | .range first limit none span _ => .range first.erase limit.erase none span ()
  | .range first limit (some step) span _ =>
    .range first.erase limit.erase (some step.erase) span ()
  | .call name args _ span _ => .call name (Expr.eraseAll args) () span ()
  | .construct name args _ span _ => .construct name (Expr.eraseAll args) () span ()
  | .member base field _ span _ => .member base.erase field () span ()
  | .ifElse cond yes no span _ => .ifElse cond.erase yes.erase no.erase span ()
  | .ifOnly cond yes span _ => .ifOnly cond.erase yes.erase span ()
  | .foreach element elementType source body _ span _ =>
    .foreach element elementType source.erase body.erase () span ()
  | .block body _ => .block body.erase ()

def Expr.eraseAll : List (Expr .typed) → List (Expr .parsed)
  | [] => []
  | first :: rest => first.erase :: Expr.eraseAll rest

def Block.erase : Block .typed → Block .parsed
  | ⟨stmts, span, _⟩ => ⟨Stmt.eraseAll stmts, span, ()⟩

def Stmt.eraseAll : List (Stmt .typed) → List (Stmt .parsed)
  | [] => []
  | first :: rest => first.erase :: Stmt.eraseAll rest

def Stmt.erase : Stmt .typed → Stmt .parsed
  | .letIn name type first chained span _ =>
    .letIn name type first.erase (Expr.eraseAll chained) span ()
  | .func name params returns body span _ =>
    .func name (params.map Binding.erase) returns body.erase span ()
  | .record name fields span _ => .record name (fields.map Binding.erase) span ()
  | .expr value => .expr value.erase

end

attribute [simp] Expr.erase Expr.eraseAll Block.erase Stmt.eraseAll Stmt.erase

def Module.erase (m : Module .typed) : Module .parsed := ⟨Stmt.eraseAll m.stmts⟩

/-! ### Nodes -/

inductive Part where
  | expr (e : Expr .typed)
  | block (body : Block .typed)
  | stmt (stmt : Stmt .typed)

/-- A part of a tree, with the function whose body it belongs to. -/
structure Node where
  owner : Option SymbolId
  part : Part

mutual

def Expr.nodes (owner : Option SymbolId) : Expr .typed → List Node
  | .number value span ty => [⟨owner, .expr (.number value span ty)⟩]
  | .string value span ty => [⟨owner, .expr (.string value span ty)⟩]
  | .bool value span ty => [⟨owner, .expr (.bool value span ty)⟩]
  | .named name sym span ty => [⟨owner, .expr (.named name sym span ty)⟩]
  | .binary op lhs rhs span ty =>
    ⟨owner, .expr (.binary op lhs rhs span ty)⟩ :: (lhs.nodes owner ++ rhs.nodes owner)
  | .range first limit none span ty =>
    ⟨owner, .expr (.range first limit none span ty)⟩ :: (first.nodes owner ++ limit.nodes owner)
  | .range first limit (some step) span ty =>
    ⟨owner, .expr (.range first limit (some step) span ty)⟩ ::
      (first.nodes owner ++ limit.nodes owner ++ step.nodes owner)
  | .call name args sym span ty =>
    ⟨owner, .expr (.call name args sym span ty)⟩ :: Expr.allNodes owner args
  | .construct name args sym span ty =>
    ⟨owner, .expr (.construct name args sym span ty)⟩ :: Expr.allNodes owner args
  | .member base field sym span ty =>
    ⟨owner, .expr (.member base field sym span ty)⟩ :: base.nodes owner
  | .ifElse cond yes no span ty =>
    ⟨owner, .expr (.ifElse cond yes no span ty)⟩ ::
      (cond.nodes owner ++ yes.nodes owner ++ no.nodes owner)
  | .ifOnly cond yes span ty =>
    ⟨owner, .expr (.ifOnly cond yes span ty)⟩ :: (cond.nodes owner ++ yes.nodes owner)
  | .foreach element elementType source body sym span ty =>
    ⟨owner, .expr (.foreach element elementType source body sym span ty)⟩ ::
      (source.nodes owner ++ body.nodes owner)
  | .block body ty => ⟨owner, .expr (.block body ty)⟩ :: body.nodes owner

def Expr.allNodes (owner : Option SymbolId) : List (Expr .typed) → List Node
  | [] => []
  | first :: rest => first.nodes owner ++ Expr.allNodes owner rest

def Block.nodes (owner : Option SymbolId) : Block .typed → List Node
  | ⟨stmts, span, ty⟩ => ⟨owner, .block ⟨stmts, span, ty⟩⟩ :: Stmt.allNodes owner stmts

def Stmt.allNodes (owner : Option SymbolId) : List (Stmt .typed) → List Node
  | [] => []
  | first :: rest => first.nodes owner ++ Stmt.allNodes owner rest

/-- What is inside a function belongs to that function and to none around it. -/
def Stmt.nodes (owner : Option SymbolId) : Stmt .typed → List Node
  | .letIn name type first chained span sym =>
    ⟨owner, .stmt (.letIn name type first chained span sym)⟩ ::
      (first.nodes owner ++ Expr.allNodes owner chained)
  | .func name params returns body span sym =>
    ⟨owner, .stmt (.func name params returns body span sym)⟩ :: body.nodes (some sym)
  | .record name fields span sym => [⟨owner, .stmt (.record name fields span sym)⟩]
  | .expr value => ⟨owner, .stmt (.expr value)⟩ :: value.nodes owner

end

/-- All nodes of a module, also those in nested functions. -/
def Module.nodes (m : Module .typed) : List Node := Stmt.allNodes none m.stmts

/-- `Function` types no value, a sequence type has exactly one argument, and a record type is that of
a record symbol with the same name. -/
inductive Ty.OfValues (symbol : SymbolId → Symbol) : Ty → Prop
  | number : OfValues symbol .number
  | string : OfValues symbol .string
  | boolean : OfValues symbol .boolean
  | seqOf {element} : OfValues symbol element → OfValues symbol (.seqOf [element])
  | record {id name fields} : (symbol id).kind = .record fields → (symbol id).name = name →
      OfValues symbol (.record id name)

theorem Ty.OfValues.eq_seqOf {symbol : SymbolId → Symbol} {ty element : Ty} (ofValues : ty.OfValues symbol)
    (found : ty.element? = some element) : ty = .seqOf [element] := by
  cases ofValues with
  | seqOf =>
    cases found
    rfl
  | _ => cases found

/-- The types of an operator's operands and of its result. -/
inductive Operator.Typing : Operator → Ty → Ty → Ty → Prop
  | arithmetic {op} : op ∈ [.add, .sub, .mul, .div, .rem] → Typing op .number .number .number
  | order {op} : op ∈ [.greater, .less] → Typing op .number .number .boolean
  | logic {op} : op ∈ [.and, .or] → Typing op .boolean .boolean .boolean
  | equality {op ty} : op ∈ [.eq, .ne] → Typing op ty ty .boolean
  | concat {lhs rhs} : lhs ∈ [.number, .string] → rhs ∈ [.number, .string] →
      Typing .concat lhs rhs .string

theorem Resolve.resultType?_eq_some {op : Operator} {lhs rhs ty : Ty} :
    Resolve.resultType? op lhs rhs = some ty ↔ op.Typing lhs rhs ty := by
  constructor
  · intro found
    cases op
    all_goals
      simp only [Resolve.resultType?, Option.ite_none_right_eq_some, Option.some.injEq] at found
    case eq | ne =>
      obtain ⟨rfl, rfl⟩ := found
      exact .equality (by simp)
    case concat =>
      obtain ⟨⟨left, right⟩, rfl⟩ := found
      exact .concat (by simpa using left) (by simpa using right)
    case or | and =>
      obtain ⟨⟨rfl, rfl⟩, rfl⟩ := found
      exact .logic (by simp)
    case greater | less =>
      obtain ⟨⟨rfl, rfl⟩, rfl⟩ := found
      exact .order (by simp)
    all_goals
      obtain ⟨⟨rfl, rfl⟩, rfl⟩ := found
      exact .arithmetic (by simp)
  · intro rule
    cases rule with
    | arithmetic listed | order listed | logic listed | equality listed =>
      cases op <;> simp [Resolve.resultType?] at listed ⊢
    | concat left right => exact if_pos ⟨by simpa using left, by simpa using right⟩

/-! ### Decorations -/

namespace Globals

variable (globals : Globals)

/-- A parameter or local that belongs to a function. -/
structure IsVariable (owner : Option SymbolId) (sym : SymbolId) (name : String) : Prop where
  name : (globals.symbol sym).name = name
  kind : (globals.symbol sym).kind = .localVar ∨ ∃ index, (globals.symbol sym).kind = .param index
  owner : ∃ function, owner = some function ∧ (globals.symbol sym).owner = some function

structure IsLocal (owner : Option SymbolId) (sym : SymbolId) (name : String) : Prop where
  name : (globals.symbol sym).name = name
  kind : (globals.symbol sym).kind = .localVar
  owner : ∃ function, owner = some function ∧ (globals.symbol sym).owner = some function

/-- The field of a record in its place. -/
structure IsField (record sym : SymbolId) (name : String) : Prop where
  name : (globals.symbol sym).name = name
  place : ∃ fields index, globals.IsRecord record fields ∧ fields[index]? = some sym ∧
    (globals.symbol sym).kind = .field record index

end Globals

variable (globals : Globals) (owner : Option SymbolId)

/-- The typing rule of an expression whose parts have their types. -/
def Expr.Decorated : Expr .typed → Prop
  | .number _ _ ty => ty = .number
  | .string _ _ ty => ty = .string
  | .bool _ _ ty => ty = .boolean
  | .named name sym _ ty =>
    globals.IsVariable owner sym name.text ∧ ty = (globals.symbol sym).ty
  | .binary op lhs rhs _ ty => op.Typing lhs.ty rhs.ty ty
  | .range first limit step _ ty =>
    first.ty = .number ∧ limit.ty = .number ∧ (∀ e ∈ step, e.ty = .number) ∧ ty = .seqOf [.number]
  | .call name args sym _ ty =>
    (globals.symbol sym).name = name.text ∧ ∃ params, globals.IsFunction sym params ty ∧
      args.map Expr.ty = globals.types params
  | .construct name args sym _ ty =>
    (globals.symbol sym).name = name.text ∧ ty = .record sym name.text ∧
      ∃ fields, globals.IsRecord sym fields ∧ args.map Expr.ty = globals.types fields
  | .member base field sym _ ty =>
    ∃ record name, base.ty = .record record name ∧ globals.IsField record sym field.text ∧
      ty = (globals.symbol sym).ty
  | .ifElse cond yes no _ ty => cond.ty = .boolean ∧ yes.ty = some ty ∧ no.ty = some ty
  | .ifOnly cond yes _ ty => cond.ty = .boolean ∧ yes.ty = some ty
  | .foreach element _ source body sym _ ty =>
    globals.IsLocal owner sym element.text ∧ source.ty = .seqOf [(globals.symbol sym).ty] ∧
      body.ty = some ty
  | .block body ty => body.ty = some ty

/-- A block has the type of its last statement, which is an expression. -/
def Block.Decorated (body : Block .typed) : Prop :=
  ∃ value, body.stmts.getLast? = some (.expr value) ∧ body.ty = some value.ty

def Stmt.Decorated : Stmt .typed → Prop
  | .letIn name _ first chained _ sym =>
    globals.IsLocal owner sym name.text ∧
      ∀ body ∈ first :: chained, body.ty = (globals.symbol sym).ty
  | .func name params _ body _ sym =>
    (globals.symbol sym).name = name.text ∧
      (∀ param ∈ params, (globals.symbol param.sym).name = param.name.text) ∧
      ∃ returns, globals.IsFunction sym (params.map Binding.sym) returns ∧ body.ty = some returns
  | .record name fields _ sym =>
    (globals.symbol sym).name = name.text ∧
      (∀ field ∈ fields, (globals.symbol field.sym).name = field.name.text) ∧
      globals.IsRecord sym (fields.map Binding.sym)
  | .expr _ => True

/-- Every expression and every block has a type that values have, besides. -/
def Node.Decorated (node : Node) : Prop :=
  match node.part with
  | .expr e => e.Decorated globals node.owner ∧ e.ty.OfValues globals.symbol
  | .block body => body.Decorated ∧ ∀ ty ∈ body.ty, ty.OfValues globals.symbol
  | .stmt stmt => stmt.Decorated globals node.owner

variable {globals} {owner}

def Part.declares : Part → List SymbolId
  | .expr (.foreach _ _ _ _ sym _ _) => [sym]
  | .stmt (.letIn _ _ _ _ _ sym) => [sym]
  | .stmt (.func _ params _ _ _ sym) => sym :: params.map Binding.sym
  | .stmt (.record _ fields _ sym) => sym :: fields.map Binding.sym
  | _ => []

def Node.declares (node : Node) : List SymbolId := node.part.declares

def Module.declares (m : Module .typed) : List SymbolId := m.nodes.flatMap Node.declares

def Part.refers : Part → List SymbolId
  | .expr (.named _ sym _ _) => [sym]
  | .expr (.call _ _ sym _ _) => [sym]
  | .expr (.construct _ _ sym _ _) => [sym]
  | .expr (.member _ _ sym _ _) => [sym]
  | _ => []

/-! ### Nodes that declare -/

def Part.declaration? : Part → Option Declaration
  | .expr (.foreach _ _ _ _ sym _ _) => some (.localVar sym)
  | .stmt (.letIn _ _ _ _ _ sym) => some (.localVar sym)
  | .stmt (.func _ params _ body _ sym) => some (.function ⟨sym, params.length, body⟩)
  | .stmt (.record name _ _ sym) => some (.record sym name.text)
  | _ => none

def Node.declared (nodes : List Node) : List Declaration :=
  nodes.filterMap (·.part.declaration?)

@[simp] theorem Node.declared_nil : Node.declared [] = [] := rfl

@[simp] theorem Node.declared_cons (owner : Option SymbolId) (part : Part) (nodes : List Node) :
    Node.declared (⟨owner, part⟩ :: nodes) = part.declaration?.toList ++ Node.declared nodes := by
  cases found : part.declaration? <;> simp [Node.declared, found]

@[simp] theorem Node.declared_append (first rest : List Node) :
    Node.declared (first ++ rest) = Node.declared first ++ Node.declared rest :=
  List.filterMap_append ..

theorem Node.declared_sublist (nodes : List Node) :
    List.Sublist ((Node.declared nodes).map Declaration.sym) (nodes.flatMap Node.declares) := by
  induction nodes with
  | nil => exact List.Sublist.slnil
  | cons node rest ih =>
    obtain ⟨owner, part⟩ := node
    rw [Node.declared_cons, List.map_append, List.flatMap_cons]
    refine List.Sublist.append ?_ ih
    cases part with
    | expr part | stmt part =>
      cases part <;> simp [Part.declaration?, Node.declares, Part.declares, Declaration.sym]
    | block => exact List.Sublist.slnil

mutual

theorem Expr.declarations_eq : ∀ (owner : Option SymbolId) (e : Expr .typed),
    e.declarations = Node.declared (e.nodes owner)
  | _, .number .. | _, .string .. | _, .bool .. | _, .named .. => rfl
  | owner, .binary _ lhs rhs _ _ => by
    simp [Expr.declarations, Expr.nodes, Part.declaration?, lhs.declarations_eq owner,
      rhs.declarations_eq owner]
  | owner, .range first limit none _ _ => by
    simp [Expr.declarations, Expr.nodes, Part.declaration?, first.declarations_eq owner,
      limit.declarations_eq owner]
  | owner, .range first limit (some step) _ _ => by
    simp [Expr.declarations, Expr.nodes, Part.declaration?, first.declarations_eq owner,
      limit.declarations_eq owner, step.declarations_eq owner]
  | owner, .call _ args _ _ _ => by
    simp [Expr.declarations, Expr.nodes, Part.declaration?, Expr.allDeclarations_eq owner args]
  | owner, .construct _ args _ _ _ => by
    simp [Expr.declarations, Expr.nodes, Part.declaration?, Expr.allDeclarations_eq owner args]
  | owner, .member base _ _ _ _ => by
    simp [Expr.declarations, Expr.nodes, Part.declaration?, base.declarations_eq owner]
  | owner, .ifElse cond yes no _ _ => by
    simp [Expr.declarations, Expr.nodes, Part.declaration?, cond.declarations_eq owner,
      yes.declarations_eq owner, no.declarations_eq owner]
  | owner, .ifOnly cond yes _ _ => by
    simp [Expr.declarations, Expr.nodes, Part.declaration?, cond.declarations_eq owner,
      yes.declarations_eq owner]
  | owner, .foreach _ _ source body _ _ _ => by
    simp [Expr.declarations, Expr.nodes, Part.declaration?, source.declarations_eq owner,
      body.declarations_eq owner]
  | owner, .block body _ => by
    simp [Expr.declarations, Expr.nodes, Part.declaration?, body.declarations_eq owner]

theorem Expr.allDeclarations_eq : ∀ (owner : Option SymbolId) (es : List (Expr .typed)),
    Expr.allDeclarations es = Node.declared (Expr.allNodes owner es)
  | _, [] => rfl
  | owner, first :: rest => by
    simp [Expr.allDeclarations, Expr.allNodes, first.declarations_eq owner,
      Expr.allDeclarations_eq owner rest]

theorem Block.declarations_eq : ∀ (owner : Option SymbolId) (body : Block .typed),
    body.declarations = Node.declared (body.nodes owner)
  | owner, ⟨stmts, _, _⟩ => by
    simp [Block.declarations, Block.nodes, Part.declaration?, Stmt.allDeclarations_eq owner stmts]

theorem Stmt.allDeclarations_eq : ∀ (owner : Option SymbolId) (stmts : List (Stmt .typed)),
    Stmt.allDeclarations stmts = Node.declared (Stmt.allNodes owner stmts)
  | _, [] => rfl
  | owner, first :: rest => by
    simp [Stmt.allDeclarations, Stmt.allNodes, first.declarations_eq owner,
      Stmt.allDeclarations_eq owner rest]

theorem Stmt.declarations_eq : ∀ (owner : Option SymbolId) (stmt : Stmt .typed),
    stmt.declarations = Node.declared (stmt.nodes owner)
  | owner, .letIn _ _ first chained _ _ => by
    simp [Stmt.declarations, Stmt.nodes, Part.declaration?, first.declarations_eq owner,
      Expr.allDeclarations_eq owner chained]
  | _, .func _ _ _ body _ sym => by
    simp [Stmt.declarations, Stmt.nodes, Part.declaration?, body.declarations_eq (some sym)]
  | _, .record .. => rfl
  | owner, .expr value => by
    simp [Stmt.declarations, Stmt.nodes, Part.declaration?, value.declarations_eq owner]

end

/-! ### All symbols in use -/

mutual

def Ty.records : Ty → List SymbolId
  | .record id _ => [id]
  | .seqOf args => Ty.allRecords args
  | _ => []

def Ty.allRecords : List Ty → List SymbolId
  | [] => []
  | first :: rest => first.records ++ Ty.allRecords rest

end

def Part.records : Part → List SymbolId
  | .expr e => e.ty.records
  | .block body => (body.ty.map Ty.records).getD []
  | .stmt _ => []

/-- All symbols that occur in a node, apart from those in the nodes below it. -/
def Part.symbols (part : Part) : List SymbolId := part.declares ++ part.refers ++ part.records

def SymbolKind.symbols : SymbolKind → List SymbolId
  | .record fields => fields
  | .function params returns _ => params ++ returns.records
  | .field parent _ => [parent]
  | .param _ | .localVar => []

/-- All symbols that occur in an entry of the table. -/
def Symbol.symbols (symbol : Symbol) : List SymbolId :=
  symbol.owner.toList ++ symbol.ty.records ++ symbol.kind.symbols

end LetChain
