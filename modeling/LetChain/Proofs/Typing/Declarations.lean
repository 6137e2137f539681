import LetChain.Proofs.Scoping.Lexical

/-! What typed trees declare, and where. -/

namespace LetChain

def Stmt.functionName? {phase : Phase} : Stmt phase → Option String
  | .func name _ _ _ _ _ => some name.text
  | _ => none

/-- A function of a module, wherever it is declared. -/
structure FunctionDef where
  sym : SymbolId
  params : Nat
  body : Block .typed

inductive Declaration where
  | localVar (sym : SymbolId)
  | function (definition : FunctionDef)
  | record (sym : SymbolId) (name : String)

namespace Declaration

def sym : Declaration → SymbolId
  | .localVar sym => sym
  | .function definition => definition.sym
  | .record sym _ => sym

def function? : Declaration → Option FunctionDef
  | .function definition => some definition
  | _ => none

end Declaration

mutual

/-- All that is declared inside an expression, also inside its functions. -/
def Expr.declarations : Expr .typed → List Declaration
  | .number .. | .string .. | .bool .. | .named .. => []
  | .binary _ lhs rhs _ _ => lhs.declarations ++ rhs.declarations
  | .range first limit none _ _ => first.declarations ++ limit.declarations
  | .range first limit (some step) _ _ =>
    first.declarations ++ limit.declarations ++ step.declarations
  | .call _ args _ _ _ => Expr.allDeclarations args
  | .construct _ args _ _ _ => Expr.allDeclarations args
  | .member base _ _ _ _ => base.declarations
  | .ifElse cond yes no _ _ => cond.declarations ++ yes.declarations ++ no.declarations
  | .ifOnly cond yes _ _ => cond.declarations ++ yes.declarations
  | .foreach _ _ source body sym _ _ =>
    .localVar sym :: (source.declarations ++ body.declarations)
  | .block body _ => body.declarations

def Expr.allDeclarations : List (Expr .typed) → List Declaration
  | [] => []
  | first :: rest => first.declarations ++ Expr.allDeclarations rest

def Block.declarations : Block .typed → List Declaration
  | ⟨stmts, _, _⟩ => Stmt.allDeclarations stmts

def Stmt.allDeclarations : List (Stmt .typed) → List Declaration
  | [] => []
  | first :: rest => first.declarations ++ Stmt.allDeclarations rest

def Stmt.declarations : Stmt .typed → List Declaration
  | .letIn _ _ first chained _ sym =>
    .localVar sym :: (first.declarations ++ Expr.allDeclarations chained)
  | .func _ params _ body _ sym => .function ⟨sym, params.length, body⟩ :: body.declarations
  | .record name _ _ sym => [.record sym name.text]
  | .expr value => value.declarations

end

mutual

/-- The locals inside an expression that belong to the function around it. -/
def Expr.locals : Expr .typed → List SymbolId
  | .number .. | .string .. | .bool .. | .named .. => []
  | .binary _ lhs rhs _ _ => lhs.locals ++ rhs.locals
  | .range first limit none _ _ => first.locals ++ limit.locals
  | .range first limit (some step) _ _ => first.locals ++ limit.locals ++ step.locals
  | .call _ args _ _ _ => Expr.allLocals args
  | .construct _ args _ _ _ => Expr.allLocals args
  | .member base _ _ _ _ => base.locals
  | .ifElse cond yes no _ _ => cond.locals ++ yes.locals ++ no.locals
  | .ifOnly cond yes _ _ => cond.locals ++ yes.locals
  | .foreach _ _ source body sym _ _ => sym :: (source.locals ++ body.locals)
  | .block body _ => body.locals

def Expr.allLocals : List (Expr .typed) → List SymbolId
  | [] => []
  | first :: rest => first.locals ++ Expr.allLocals rest

def Block.locals : Block .typed → List SymbolId
  | ⟨stmts, _, _⟩ => Stmt.allLocals stmts

def Stmt.allLocals : List (Stmt .typed) → List SymbolId
  | [] => []
  | first :: rest => first.locals ++ Stmt.allLocals rest

def Stmt.locals : Stmt .typed → List SymbolId
  | .letIn _ _ first chained _ sym => sym :: (first.locals ++ Expr.allLocals chained)
  | .func .. | .record .. => []
  | .expr value => value.locals

end

namespace Module

def declarations (m : Module .typed) : List Declaration := Stmt.allDeclarations m.stmts

/-- The functions of a module in order: each before those in its body. -/
def functions (m : Module .typed) : List FunctionDef :=
  m.declarations.filterMap Declaration.function?

end Module

/-! ### Locals are declared -/

mutual

theorem Expr.locals_sublist : ∀ e : Expr .typed,
    List.Sublist e.locals (e.declarations.map Declaration.sym)
  | .number .. | .string .. | .bool .. | .named .. => List.nil_sublist _
  | .binary _ lhs rhs _ _ => by
    rw [Expr.locals, Expr.declarations, List.map_append]
    exact lhs.locals_sublist.append rhs.locals_sublist
  | .range first limit none _ _ => by
    rw [Expr.locals, Expr.declarations, List.map_append]
    exact first.locals_sublist.append limit.locals_sublist
  | .range first limit (some step) _ _ => by
    rw [Expr.locals, Expr.declarations, List.map_append, List.map_append]
    exact (first.locals_sublist.append limit.locals_sublist).append step.locals_sublist
  | .call _ args _ _ _ => by
    rw [Expr.locals, Expr.declarations]
    exact Expr.allLocals_sublist args
  | .construct _ args _ _ _ => by
    rw [Expr.locals, Expr.declarations]
    exact Expr.allLocals_sublist args
  | .member base _ _ _ _ => by
    rw [Expr.locals, Expr.declarations]
    exact base.locals_sublist
  | .ifElse cond yes no _ _ => by
    rw [Expr.locals, Expr.declarations, List.map_append, List.map_append]
    exact (cond.locals_sublist.append yes.locals_sublist).append no.locals_sublist
  | .ifOnly cond yes _ _ => by
    rw [Expr.locals, Expr.declarations, List.map_append]
    exact cond.locals_sublist.append yes.locals_sublist
  | .foreach _ _ source body sym _ _ => by
    rw [Expr.locals, Expr.declarations, List.map_cons, List.map_append, Declaration.sym]
    exact (source.locals_sublist.append body.locals_sublist).cons_cons sym
  | .block body _ => by
    rw [Expr.locals, Expr.declarations]
    exact body.locals_sublist

theorem Expr.allLocals_sublist : ∀ es : List (Expr .typed),
    List.Sublist (Expr.allLocals es) ((Expr.allDeclarations es).map Declaration.sym)
  | [] => List.nil_sublist _
  | first :: rest => by
    rw [Expr.allLocals, Expr.allDeclarations, List.map_append]
    exact first.locals_sublist.append (Expr.allLocals_sublist rest)

theorem Block.locals_sublist : ∀ body : Block .typed,
    List.Sublist body.locals (body.declarations.map Declaration.sym)
  | ⟨stmts, _, _⟩ => by
    rw [Block.locals, Block.declarations]
    exact Stmt.allLocals_sublist stmts

theorem Stmt.allLocals_sublist : ∀ stmts : List (Stmt .typed),
    List.Sublist (Stmt.allLocals stmts) ((Stmt.allDeclarations stmts).map Declaration.sym)
  | [] => List.nil_sublist _
  | first :: rest => by
    rw [Stmt.allLocals, Stmt.allDeclarations, List.map_append]
    exact first.locals_sublist.append (Stmt.allLocals_sublist rest)

theorem Stmt.locals_sublist : ∀ stmt : Stmt .typed,
    List.Sublist stmt.locals (stmt.declarations.map Declaration.sym)
  | .letIn _ _ first chained _ sym => by
    rw [Stmt.locals, Stmt.declarations, List.map_cons, List.map_append, Declaration.sym]
    exact (first.locals_sublist.append (Expr.allLocals_sublist chained)).cons_cons sym
  | .func .. => List.nil_sublist _
  | .record .. => List.nil_sublist _
  | .expr value => by
    rw [Stmt.locals, Stmt.declarations]
    exact value.locals_sublist

end

/-! ### Bodies are declared with their functions -/

def Encloses (declared : List Declaration) : Prop :=
  ∀ function, Declaration.function function ∈ declared →
    List.Sublist function.body.declarations declared

namespace Encloses

variable {declared others : List Declaration}

theorem nil : Encloses [] := nofun

theorem append (first : Encloses declared) (rest : Encloses others) :
    Encloses (declared ++ others) := by
  intro function member
  rcases List.mem_append.mp member with here | there
  · exact (first function here).trans (List.sublist_append_left _ _)
  · exact (rest function there).trans (List.sublist_append_right _ _)

theorem localVar (encloses : Encloses declared) (sym : SymbolId) :
    Encloses (.localVar sym :: declared) := by
  intro function member
  rcases List.mem_cons.mp member with wrong | inner
  · cases wrong
  · exact (encloses function inner).cons _

theorem function {definition : FunctionDef} (encloses : Encloses definition.body.declarations) :
    Encloses (.function definition :: definition.body.declarations) := by
  intro function member
  rcases List.mem_cons.mp member with same | inner
  · cases same
    exact List.sublist_cons_self _ _
  · exact (encloses function inner).cons _

end Encloses

mutual

theorem Expr.encloses : ∀ e : Expr .typed, Encloses e.declarations
  | .number .. | .string .. | .bool .. | .named .. => .nil
  | .binary _ lhs rhs _ _ => by
    rw [Expr.declarations]
    exact lhs.encloses.append rhs.encloses
  | .range first limit none _ _ => by
    rw [Expr.declarations]
    exact first.encloses.append limit.encloses
  | .range first limit (some step) _ _ => by
    rw [Expr.declarations]
    exact (first.encloses.append limit.encloses).append step.encloses
  | .call _ args _ _ _ => by
    rw [Expr.declarations]
    exact Expr.allEnclose args
  | .construct _ args _ _ _ => by
    rw [Expr.declarations]
    exact Expr.allEnclose args
  | .member base _ _ _ _ => by
    rw [Expr.declarations]
    exact base.encloses
  | .ifElse cond yes no _ _ => by
    rw [Expr.declarations]
    exact (cond.encloses.append yes.encloses).append no.encloses
  | .ifOnly cond yes _ _ => by
    rw [Expr.declarations]
    exact cond.encloses.append yes.encloses
  | .foreach _ _ source body sym _ _ => by
    rw [Expr.declarations]
    exact (source.encloses.append body.encloses).localVar sym
  | .block body _ => by
    rw [Expr.declarations]
    exact body.encloses

theorem Expr.allEnclose : ∀ es : List (Expr .typed), Encloses (Expr.allDeclarations es)
  | [] => .nil
  | first :: rest => by
    rw [Expr.allDeclarations]
    exact first.encloses.append (Expr.allEnclose rest)

theorem Block.encloses : ∀ body : Block .typed, Encloses body.declarations
  | ⟨stmts, _, _⟩ => by
    rw [Block.declarations]
    exact Stmt.allEnclose stmts

theorem Stmt.allEnclose : ∀ stmts : List (Stmt .typed), Encloses (Stmt.allDeclarations stmts)
  | [] => .nil
  | first :: rest => by
    rw [Stmt.allDeclarations]
    exact first.encloses.append (Stmt.allEnclose rest)

theorem Stmt.encloses : ∀ stmt : Stmt .typed, Encloses stmt.declarations
  | .letIn _ _ first chained _ sym => by
    rw [Stmt.declarations]
    exact (first.encloses.append (Expr.allEnclose chained)).localVar sym
  | .func _ _ _ body _ _ => by
    rw [Stmt.declarations]
    exact .function body.encloses
  | .record .. => by
    intro function member
    rw [Stmt.declarations] at member
    cases List.mem_singleton.mp member
  | .expr value => by
    rw [Stmt.declarations]
    exact value.encloses

end

theorem Stmt.mem_allDeclarations {stmts : List (Stmt .typed)} {stmt : Stmt .typed}
    {declaration : Declaration} (member : stmt ∈ stmts)
    (declares : declaration ∈ stmt.declarations) :
    declaration ∈ Stmt.allDeclarations stmts := by
  induction stmts with
  | nil => cases member
  | cons first rest ih =>
    rw [Stmt.allDeclarations, List.mem_append]
    rcases List.mem_cons.mp member with rfl | later
    · exact .inl declares
    · exact .inr (ih later)

namespace Module

variable {m : Module .typed}

theorem mem_functions {function : FunctionDef} :
    function ∈ m.functions ↔ Declaration.function function ∈ m.declarations := by
  rw [functions, List.mem_filterMap]
  constructor
  · rintro ⟨declaration, member, same⟩
    cases declaration with
    | function definition =>
      cases same
      exact member
    | localVar | record => cases same
  · intro member
    exact ⟨_, member, rfl⟩

theorem functions_sublist (m : Module .typed) :
    List.Sublist (m.functions.map FunctionDef.sym) (m.declarations.map Declaration.sym) := by
  rw [functions]
  induction m.declarations with
  | nil => exact List.nil_sublist _
  | cons declaration rest ih =>
    cases declaration with
    | function definition => exact ih.cons_cons _
    | localVar | record => exact ih.cons _

theorem nodup_locals (nodup : (m.declarations.map Declaration.sym).Nodup) {function : FunctionDef}
    (member : function ∈ m.functions) : function.body.locals.Nodup := by
  have inner := Stmt.allEnclose m.stmts function (mem_functions.mp member)
  exact (function.body.locals_sublist.trans (inner.map _)).nodup nodup

end Module

end LetChain
