import LetChain.Lowering.Generate
import LetChain.Proofs.Lowering.Nested
import LetChain.Proofs.Typing.Carried

/-! Stack code does not depend on where a module stands. -/

namespace LetChain

variable {f : Span → Span}

def LaidFunction.relocate (f : Span → Span) (function : LaidFunction) : LaidFunction :=
  { function with body := function.body.relocate f }

def Layout.relocate (f : Span → Span) (layout : Layout) : Layout :=
  { layout with functions := layout.functions.map (LaidFunction.relocate f) }

/-! ### Layouts -/

mutual

theorem Expr.nest_relocate : ∀ e : Expr .typed,
    Nest.Like (fun stmt stmt' => stmt' = stmt.relocate f) e.nest (e.relocate f).nest
  | .number .. | .string .. | .bool .. | .named .. => .nil
  | .binary _ lhs rhs _ _ => lhs.nest_relocate.append rhs.nest_relocate
  | .range first limit none _ _ => first.nest_relocate.append limit.nest_relocate
  | .range first limit (some step) _ _ =>
    (first.nest_relocate.append limit.nest_relocate).append step.nest_relocate
  | .call _ args _ _ _ | .construct _ args _ _ _ => Expr.allNested_relocate args
  | .member base _ _ _ _ => base.nest_relocate
  | .ifElse cond yes no _ _ =>
    (cond.nest_relocate.append yes.nest_relocate).append no.nest_relocate
  | .ifOnly cond yes _ _ => cond.nest_relocate.append yes.nest_relocate
  | .foreach _ _ source body _ _ _ => .localVar (source.nest_relocate.append body.nest_relocate)
  | .block body _ => body.nest_relocate

theorem Expr.allNested_relocate : ∀ es : List (Expr .typed),
    Nest.Like (fun stmt stmt' => stmt' = stmt.relocate f) (Expr.allNested es)
      (Expr.allNested (Expr.carryAll (.ofPlace f) es))
  | [] => .nil
  | first :: rest => first.nest_relocate.append (Expr.allNested_relocate rest)

theorem Block.nest_relocate : ∀ body : Block .typed,
    Nest.Like (fun stmt stmt' => stmt' = stmt.relocate f) body.nest (body.relocate f).nest
  | ⟨stmts, _, _⟩ => Stmt.allNested_relocate stmts

theorem Stmt.allNested_relocate : ∀ stmts : List (Stmt .typed),
    Nest.Like (fun stmt stmt' => stmt' = stmt.relocate f) (Stmt.allNested stmts)
      (Stmt.allNested (Stmt.carryAll (.ofPlace f) stmts))
  | [] => .nil
  | first :: rest => first.nest_relocate.append (Stmt.allNested_relocate rest)

theorem Stmt.nest_relocate : ∀ stmt : Stmt .typed,
    Nest.Like (fun stmt stmt' => stmt' = stmt.relocate f) stmt.nest (stmt.relocate f).nest
  | .letIn _ _ first chained _ _ =>
    .localVar (first.nest_relocate.append (Expr.allNested_relocate chained))
  | .func _ _ _ body _ _ => .function rfl body.nest_relocate .nil
  | .record .. => .record rfl .nil
  | .expr value => value.nest_relocate

end

namespace Layout

theorem symbol_relocate (symbols : Symbols) (id : SymbolId) :
    symbol (symbols.relocate f) id = (symbol symbols id).map (Symbol.relocate f) := by
  simp only [symbol, Symbols.relocate, Array.getElem?_map]
  cases symbols[id]? <;> rfl

theorem names_relocate (symbols : Symbols) (ids : List SymbolId) :
    names (symbols.relocate f) ids = names symbols ids := by
  have each : (fun id => (symbol (symbols.relocate f) id).map Symbol.name) =
      fun id => (symbol symbols id).map Symbol.name := by
    funext id
    rw [symbol_relocate]
    cases symbol symbols id <;> rfl
  rw [names, names, each]

theorem addFunction_relocate (layout : Layout) (outer : Option String) (name : String)
    (params : Nat) (body : Block .typed) (sym : SymbolId) :
    addFunction (layout.relocate f) outer name params (body.relocate f) sym =
      (addFunction layout outer name params body sym).map
        fun (layout, name) => (layout.relocate f, name) := by
  simp only [addFunction, relocate, Array.size_map]
  split
  · simp only [Except.map, Array.map_push]
    rfl
  · rfl

theorem addRecord_relocate (symbols : Symbols) (layout : Layout) (name : String)
    (sym : SymbolId) :
    addRecord (symbols.relocate f) (layout.relocate f) name sym =
      (addRecord symbols layout name sym).map (relocate f) := by
  rw [addRecord, addRecord, symbol_relocate]
  cases symbol symbols sym with
  | error halt => rfl
  | ok found =>
    change (names (symbols.relocate f) found.fields >>= _) =
      Except.map _ (names symbols found.fields >>= _)
    rw [names_relocate]
    cases names symbols found.fields with
    | error halt => rfl
    | ok fields =>
      change (if _ then _ else if _ then _ else _) = Except.map _ (if _ then _ else if _ then _ else _)
      split
      · rfl
      · split <;> rfl

theorem addNest_relocate (symbols : Symbols) {nest nest' : Nest}
    (moved : Nest.Like (fun stmt stmt' => stmt' = stmt.relocate f) nest nest')
    (outer : Option String) (layout : Layout) :
    addNest (symbols.relocate f) outer (layout.relocate f) nest' =
      (addNest symbols outer layout nest).map (relocate f) := by
  induction moved generalizing outer layout with
  | nil => rfl
  | localVar _ ih => exact ih outer layout
  | @record name fields span sym _ _ _ _ rest rest' here _ ih =>
    cases here
    rw [addNest, addNest, Carry.toWording_ofPlace, Ident.text_ofPlace, addRecord_relocate]
    cases addRecord symbols layout name.text sym with
    | error halt => rfl
    | ok layout => exact ih outer layout
  | @function name params returns body span sym _ _ _ _ _ _ inner _ rest _ here _ _ ihInner ihRest =>
    cases here
    rw [addNest, addNest, Carry.toWording_ofPlace, Ident.text_ofPlace, List.length_map,
      addFunction_relocate]
    cases addFunction layout outer name.text params.length body sym with
    | error halt => rfl
    | ok added =>
      change (addNest _ (some added.2) (added.1.relocate f) _ >>= _) =
        Except.map _ (addNest _ (some added.2) added.1 _ >>= _)
      rw [ihInner]
      cases addNest symbols (some added.2) added.1 inner with
      | error halt => rfl
      | ok layout => exact ihRest outer layout

theorem unresolved_relocate {α : Type} (symbols : Symbols) (sym : SymbolId) :
    (unresolved (symbols.relocate f) sym : Lay α) = unresolved symbols sym := by
  rw [unresolved, unresolved, symbol_relocate]
  cases symbol symbols sym <;> rfl

theorem functionId_relocate (layout : Layout) (symbols : Symbols) (sym : SymbolId) :
    (layout.relocate f).functionId (symbols.relocate f) sym = layout.functionId symbols sym := by
  simp only [functionId, unresolved_relocate]
  rfl

theorem recordId_relocate (layout : Layout) (symbols : Symbols) (sym : SymbolId) :
    (layout.relocate f).recordId (symbols.relocate f) sym = layout.recordId symbols sym := by
  simp only [recordId, unresolved_relocate]
  rfl

end Layout

namespace Lower

theorem load_relocate (symbols : Symbols) (sym : SymbolId) :
    load (symbols.relocate f) sym = load symbols sym := by
  simp only [load, Layout.symbol_relocate, Layout.unresolved_relocate]
  cases Layout.symbol symbols sym <;> rfl

theorem loadField_relocate (layout : Layout) (symbols : Symbols) (sym : SymbolId) :
    loadField (layout.relocate f) (symbols.relocate f) sym = loadField layout symbols sym := by
  simp only [loadField, Layout.symbol_relocate, Layout.unresolved_relocate,
    Layout.recordId_relocate]
  cases Layout.symbol symbols sym <;> rfl

mutual

theorem lowerExpr_relocate (layout : Layout) (symbols : Symbols) : ∀ e : Expr .typed,
    lowerExpr (layout.relocate f) (symbols.relocate f) (e.relocate f) = lowerExpr layout symbols e
  | .number .. | .string .. | .bool .. => rfl
  | .named _ sym _ _ => load_relocate symbols sym
  | .binary op lhs rhs _ _ => by
    simp only [Expr.carry, lowerExpr, Expr.ty_carry, Carry.ty_ofPlace, lowerExpr_relocate layout symbols lhs,
      lowerExpr_relocate layout symbols rhs]
  | .range first limit none _ _ => by
    simp only [Expr.carry, lowerExpr, lowerExpr_relocate layout symbols first,
      lowerExpr_relocate layout symbols limit, lowerStep]
  | .range first limit (some step) _ _ => by
    simp only [Expr.carry, lowerExpr, lowerExpr_relocate layout symbols first,
      lowerExpr_relocate layout symbols limit, lowerStep, lowerExpr_relocate layout symbols step]
  | .call _ args sym _ _ => by
    rw [Expr.relocate, Expr.carry, lowerExpr, lowerExpr, lowerExprs_relocate layout symbols args,
      Layout.functionId_relocate]
  | .construct _ args sym _ _ => by
    rw [Expr.relocate, Expr.carry, lowerExpr, lowerExpr, lowerExprs_relocate layout symbols args,
      Layout.recordId_relocate]
  | .member base _ sym _ _ => by
    rw [Expr.relocate, Expr.carry, lowerExpr, lowerExpr, lowerExpr_relocate layout symbols base,
      loadField_relocate]
  | .ifElse cond yes no _ _ => by
    rw [Expr.relocate, Expr.carry, lowerExpr, lowerExpr, lowerExpr_relocate layout symbols cond,
      lowerBlock_relocate layout symbols yes, lowerBlock_relocate layout symbols no]
  | .ifOnly .. | .foreach .. => rfl
  | .block body _ => lowerBlock_relocate layout symbols body

theorem lowerExprs_relocate (layout : Layout) (symbols : Symbols) : ∀ exprs : List (Expr .typed),
    lowerExprs (layout.relocate f) (symbols.relocate f) (Expr.carryAll (.ofPlace f) exprs) =
      lowerExprs layout symbols exprs
  | [] => rfl
  | first :: rest => by
    rw [Expr.carryAll, lowerExprs, lowerExprs, lowerExpr_relocate layout symbols first,
      lowerExprs_relocate layout symbols rest]

theorem lowerChain_relocate (layout : Layout) (symbols : Symbols) (slot : Nat) :
    ∀ bodies : List (Expr .typed),
    lowerChain (layout.relocate f) (symbols.relocate f) slot (Expr.carryAll (.ofPlace f) bodies) =
      lowerChain layout symbols slot bodies
  | [] => rfl
  | body :: rest => by
    have plain : (do
        lowerExpr (layout.relocate f) (symbols.relocate f) (body.relocate f)
        emit (.storeLocal slot)
        lowerChain (layout.relocate f) (symbols.relocate f) slot (Expr.carryAll (.ofPlace f) rest)) = (do
        lowerExpr layout symbols body
        emit (.storeLocal slot)
        lowerChain layout symbols slot rest) := by
      rw [lowerExpr_relocate layout symbols body, lowerChain_relocate layout symbols slot rest]
    rw [Expr.carryAll]
    cases body with
    | ifOnly cond yes span ty =>
      rw [Expr.carry, lowerChain, lowerChain, lowerExpr_relocate layout symbols cond,
        lowerBlock_relocate layout symbols yes, lowerChain_relocate layout symbols slot rest]
    | «foreach» element elementType source body sym span ty =>
      rw [Expr.carry, lowerChain, lowerChain, lowerExpr_relocate layout symbols source,
        lowerBlock_relocate layout symbols body, lowerChain_relocate layout symbols slot rest]
    | range first limit step span ty => cases step <;> exact plain
    | _ => exact plain

theorem lowerBlock_relocate (layout : Layout) (symbols : Symbols) : ∀ body : Block .typed,
    lowerBlock (layout.relocate f) (symbols.relocate f) (body.relocate f) =
      lowerBlock layout symbols body
  | ⟨stmts, _, _⟩ => lowerStmts_relocate layout symbols stmts

theorem lowerStmts_relocate (layout : Layout) (symbols : Symbols) : ∀ stmts : List (Stmt .typed),
    lowerStmts (layout.relocate f) (symbols.relocate f) (Stmt.carryAll (.ofPlace f) stmts) =
      lowerStmts layout symbols stmts
  | [] => rfl
  | .letIn _ _ first chained _ sym :: rest => by
    rw [Stmt.carryAll, Stmt.carry, lowerStmts, lowerStmts,
      lowerExpr_relocate layout symbols first, lowerStmts_relocate layout symbols rest]
    simp only [lowerChain_relocate layout symbols _ chained]
  | .func .. :: rest => lowerStmts_relocate layout symbols rest
  | .record .. :: rest => lowerStmts_relocate layout symbols rest
  | .expr value :: rest => by
    rw [Stmt.carryAll, Stmt.carry, lowerStmts, lowerStmts,
      lowerExpr_relocate layout symbols value, lowerStmts_relocate layout symbols rest]
    simp

end

end Lower

theorem LaidFunction.lower_relocate (layout : Layout) (symbols : Symbols)
    (function : LaidFunction) :
    (function.relocate f).lower (layout.relocate f) (symbols.relocate f) =
      function.lower layout symbols := by
  simp only [LaidFunction.lower, LaidFunction.relocate, Lower.lowerBlock_relocate]

namespace Module

theorem mainSymbol_carry {w : Wording} (laws : w.Lawful) (m : Module .typed)
    (mainName? : Option String) :
    (m.carry w.typed).mainSymbol (mainName?.map w.name) = m.mainSymbol mainName? := by
  have found : (m.carry w.typed).main? (mainName?.map w.name) =
      (m.main? mainName?).map (Stmt.carry w.typed) := by
    rw [main?, main?, Module.carry, Stmt.carryAll_eq, List.find?_map]
    congr 2
    funext stmt
    cases stmt with
    | func name =>
      cases mainName? with
      | none => rfl
      | some main => simp [Stmt.carry, Ident.carry, Wording.typed, laws.name_inj]
    | _ => rfl
  rw [mainSymbol, mainSymbol, found]
  cases m.main? mainName? with
  | none => rfl
  | some stmt =>
    cases stmt with
    | func => simp [Stmt.carry]
    | _ => rfl

theorem mainSymbol_relocate (m : Module .typed) (mainName? : Option String) :
    (m.relocate f).mainSymbol mainName? = m.mainSymbol mainName? := by
  have moved := m.mainSymbol_carry (Wording.ofPlace_lawful f) mainName?
  rwa [Wording.typed_ofPlace, Wording.ofPlace, Option.map_id] at moved

theorem generate_relocate (f : Span → Span) (m : Module .typed) (symbols : Symbols)
    (mainName? : Option String) :
    (m.relocate f).generate (symbols.relocate f) mainName? = m.generate symbols mainName? := by
  have walked : Layout.addStmts (symbols.relocate f) none .empty (m.relocate f).stmts =
      (Layout.addStmts symbols none .empty m.stmts).map (Layout.relocate f) := by
    have start : Layout.empty = Layout.empty.relocate f := by simp [Layout.relocate, Layout.empty]
    rw [start, relocate, carry, Layout.addStmts_eq, Layout.addStmts_eq,
      Layout.addNest_relocate symbols (Stmt.allNested_relocate m.stmts), ← start]
  have lowered (layout : Layout) :
      (layout.relocate f).functions.mapM (·.lower (layout.relocate f) (symbols.relocate f)) =
        layout.functions.mapM (·.lower layout symbols) := by
    simp only [Layout.relocate, Array.mapM_map]
    exact congrArg (Array.mapM · layout.functions)
      (funext fun function => function.lower_relocate layout symbols)
  rw [generate, generate, mainSymbol_relocate]
  simp only [generateFrom, walked]
  cases Layout.addStmts symbols none .empty m.stmts with
  | error halt => rfl
  | ok layout =>
    change ((m.mainSymbol mainName?).mapError Halt.error >>= fun main =>
      (layout.relocate f).functions.mapM _ >>= _) = _
    simp only [lowered, Layout.functionId_relocate]
    rfl

end Module

end LetChain
