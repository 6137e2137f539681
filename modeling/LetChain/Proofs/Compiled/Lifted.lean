import LetChain.Proofs.Compiled.Generation
import LetChain.Proofs.Compiled.Listing
import LetChain.Proofs.Lowering.Callees
import LetChain.Proofs.Lowering.Qualified

/-! How functions are lifted out of each other: where the routine of each is in the program, what it is
called, and which routines it calls. -/

namespace LetChain

/-! ### Modules that are ready for a program -/

structure Resolved.Settled (resolved : Resolved) : Prop where
  areDeclarations : ∀ stmt ∈ resolved.module.stmts, stmt.erase.IsDeclaration
  distinct : (resolved.module.stmts.filterMap Stmt.functionName?).Nodup
  spelled : ∀ node ∈ resolved.module.nodes, node.part.Spelled
  nodup : (resolved.module.declarations.map Declaration.sym).Nodup
  typed : ∀ declaration ∈ resolved.module.declarations,
    Typing.DeclarationTyped resolved.globals declaration
  fits : ∀ declaration ∈ resolved.module.declarations, declaration.Fits resolved.symbols

theorem Module.resolve_settled {m : Module .parsed} {names : NameTable} {resolved : Resolved}
    {number : Float → Prop} (writable : m.Writable number) (ran : m.resolve names = .ok resolved) :
    resolved.Settled := by
  have decorates := m.resolve_decorated writable.2 ran
  obtain ⟨nodup, typed⟩ := m.resolve_typed writable.2 ran
  refine ⟨fun stmt member => ?_, m.resolve_distinct ran decorates.erase, decorates.spelled writable,
    nodup, typed, (m.resolve_generable writable.2 ran).fits⟩
  have erased : stmt.erase ∈ resolved.module.erase.stmts := by
    rw [Module.erase, Stmt.eraseAll_eq_map]
    exact List.mem_map_of_mem member
  rw [decorates.erase] at erased
  exact writable.2 _ erased

theorem Module.generate_steps {m : Module .typed} {symbols : Symbols} {mainName? : Option String}
    {program : Program} (made : m.generate symbols mainName? = .ok program) :
    ∃ main layout index, m.mainSymbol mainName? = .ok main ∧
      Layout.addStmts symbols none .empty m.stmts = .ok layout ∧
      layout.functions.toList.mapM (·.lower layout symbols) = .ok program.routines.toList ∧
      layout.functionIds[main]? = some index ∧ program.records = layout.records ∧
      program.entry = Program.entryOf index := by
  rw [Module.generate] at made
  obtain ⟨main, isMain, made⟩ := Stateful.except_bind_eq_ok.mp made
  obtain ⟨layout, laid, made⟩ := Stateful.except_bind_eq_ok.mp made
  obtain ⟨routines, lowered, made⟩ := Stateful.except_bind_eq_ok.mp made
  obtain ⟨index, isIndex, made⟩ := Stateful.except_bind_eq_ok.mp made
  cases made
  rw [Array.mapM_eq_mapM_toList] at lowered
  obtain ⟨list, ranList, same⟩ := Stateful.except_bind_eq_ok.mp lowered
  cases same
  exact ⟨main, layout, index, Stateful.mapError_eq_ok.mp isMain, laid, ranList,
    Writes.functionId_eq_ok isIndex, rfl, rfl⟩

namespace Resolved.Settled

variable {resolved : Resolved} {layout : Layout}

theorem numbers (laid : Layout.addStmts resolved.symbols none .empty resolved.module.stmts = .ok layout) :
    layout.Numbers resolved.symbols resolved.module.declarations :=
  (Layout.numbers_empty resolved.symbols).addStmts _ laid

theorem extended (fits : ∀ declaration ∈ resolved.module.declarations, declaration.Fits resolved.symbols)
    (laid : Layout.addStmts resolved.symbols none .empty resolved.module.stmts = .ok layout) :
    Layout.empty.Extends layout resolved.module.declarations := by
  rcases Layout.addStmts_lays resolved.module.stmts fits with ⟨_, ran, extended⟩ | ⟨_, failed, -⟩
  · cases laid.symm.trans ran
    exact extended
  · cases laid.symm.trans failed

theorem functionIds_eq_some
    (fits : ∀ declaration ∈ resolved.module.declarations, declaration.Fits resolved.symbols)
    (nodup : (resolved.module.declarations.map Declaration.sym).Nodup)
    (laid : Layout.addStmts resolved.symbols none .empty resolved.module.stmts = .ok layout)
    {index : Nat} {function : FunctionDef} (found : resolved.module.functions[index]? = some function) :
    layout.functionIds[function.sym]? = some index := by
  have declared := Module.mem_functions.mp (List.mem_of_getElem? found)
  have known := (extended fits laid).functionIds function.sym (Or.inr ⟨function, declared, rfl⟩)
  obtain ⟨other, isOther⟩ : ∃ other, layout.functionIds[function.sym]? = some other :=
    ⟨_, Std.HashMap.getElem?_eq_some_getElem known⟩
  obtain ⟨function', found', same⟩ := (numbers laid).functionIds _ _ isOther
  have nodup := (resolved.module.functions_sublist).nodup nodup
  have bound : index < (resolved.module.functions.map FunctionDef.sym).length := by
    rw [List.length_map]
    exact (List.getElem?_eq_some_iff.mp found).1
  have place : index = other := by
    refine (List.getElem?_inj bound nodup).mp ?_
    rw [List.getElem?_map, List.getElem?_map, found, Module.functions, found', Option.map_some,
      Option.map_some, same]
  rw [isOther, place]

end Resolved.Settled

/-! ### The program -/

def Program.names (program : Program) : List String := program.routines.toList.map Routine.name

/-- A program holds the functions of a module, the routine of each in the place that `number` gives. -/
structure Program.Lifts (program : Program) (resolved : Resolved) (mainName? : Option String)
    (number : SymbolId → Nat) : Prop where
  distinct : (program.entry.name :: program.names).Nodup
  numbers : resolved.module.functions.map (fun function => number function.sym) =
    List.range program.routines.size
  top : ∀ heading ∈ resolved.module.headings, heading.owner = none →
    program.names[number heading.function.sym]? =
      some (if heading.name = "Execute" then "Execute#2" else heading.name)
  nested : ∀ heading ∈ resolved.module.headings, ∀ owner, heading.owner = some owner →
    number owner < number heading.function.sym ∧
      ∃ outer name, program.names[number owner]? = some outer ∧
        program.names[number heading.function.sym]? = some name ∧
        Layout.Frees (Layout.usedBefore program.names (number heading.function.sym))
          (outer ++ "." ++ heading.name) name
  /-- A routine is made from its function, and calls the routines of those that the function calls. -/
  routines : ∀ function ∈ resolved.module.functions, ∃ layout routine,
    Layout.addStmts resolved.symbols none .empty resolved.module.stmts = .ok layout ∧
      program.routines[number function.sym]? = some routine ∧
      LaidFunction.lower layout resolved.symbols ⟨routine.name, function.params, function.body⟩ =
        .ok routine ∧
      routine.callees = function.body.calls.map number ∧
      ∀ sym ∈ function.body.calls, ∃ callee ∈ resolved.module.functions, callee.sym = sym
  entry : ∃ main ∈ resolved.module.functions, resolved.module.mainSymbol mainName? = .ok main.sym ∧
    program.entry = Program.entryOf (number main.sym)

theorem LaidFunction.lower_callees {layout : Layout} {symbols : Symbols} {laid : LaidFunction}
    {routine : Routine} (ran : laid.lower layout symbols = .ok routine) :
    laid.body.calls.map (fun sym => layout.functionIds[sym]?) = routine.callees.map some := by
  obtain ⟨-, -, -, stop, code, ends, size, -⟩ := laid.lower_placed ran
  exact (Site.block_calls laid.body code).whole ends size

def Layout.numberOf (layout : Layout) (sym : SymbolId) : Nat := (layout.functionIds[sym]?).getD 0

theorem Layout.numberOf_eq {layout : Layout} {sym : SymbolId} {index : Nat}
    (found : layout.functionIds[sym]? = some index) : layout.numberOf sym = index := by
  rw [numberOf, found, Option.getD_some]

namespace Resolved.Settled

variable {resolved : Resolved} {layout : Layout} {program : Program}

theorem names_eq
    (lowered : layout.functions.toList.mapM (·.lower layout resolved.symbols) =
      .ok program.routines.toList) : program.names = layout.functionNames := by
  rw [Program.names, Layout.functionNames, ← List.forall₂_eq_eq_eq, List.forall₂_map_left_iff,
    List.forall₂_map_right_iff]
  exact (Program.mapM_forall₂ lowered).flip.imp fun _ _ ran => (LaidFunction.lower_placed ran).1

theorem isName_heading (settled : resolved.Settled) {heading : Heading}
    (member : heading ∈ resolved.module.headings) : Text.isName heading.name = true := by
  obtain ⟨⟨owner, part⟩, isNode, found⟩ := List.mem_filterMap.mp member
  have isSpelled := settled.spelled _ isNode
  cases part with
  | stmt stmt => cases stmt <;> cases found; exact isSpelled
  | expr e => cases e <;> cases found
  | block body => cases found

section Laid

variable (settled : resolved.Settled)
  (laid : Layout.addStmts resolved.symbols none .empty resolved.module.stmts = .ok layout)

include settled laid

theorem numberOf_heading {index : Nat} {heading : Heading}
    (found : resolved.module.headings[index]? = some heading) :
    layout.numberOf heading.function.sym = index := by
  refine Layout.numberOf_eq (functionIds_eq_some settled.fits settled.nodup laid ?_)
  rw [← Module.map_function_headings, List.getElem?_map, found]
  rfl

theorem top_name {heading : Heading} (member : heading ∈ resolved.module.headings)
    (isTop : heading.owner = none) :
    layout.functionNames[layout.numberOf heading.function.sym]? =
      some (if heading.name = "Execute" then "Execute#2" else heading.name) := by
  obtain ⟨index, found⟩ := List.getElem?_of_mem member
  have differ := Stmt.topsDiffer settled.areDeclarations settled.distinct
  rw [settled.numberOf_heading laid found]
  exact (Layout.addStmts_qualified laid).top_name differ (fun _ => settled.isName_heading) found isTop

theorem nested_name {heading : Heading} (member : heading ∈ resolved.module.headings)
    {owner : SymbolId} (isOwner : heading.owner = some owner) :
    layout.numberOf owner < layout.numberOf heading.function.sym ∧
      ∃ outer name, layout.functionNames[layout.numberOf owner]? = some outer ∧
        layout.functionNames[layout.numberOf heading.function.sym]? = some name ∧
        Layout.Frees
          (Layout.usedBefore layout.functionNames (layout.numberOf heading.function.sym))
          (outer ++ "." ++ heading.name) name := by
  obtain ⟨index, found⟩ := List.getElem?_of_mem member
  obtain ⟨outer, name, called, isName, frees⟩ := (Layout.addStmts_qualified laid).named index _ found
  rw [settled.numberOf_heading laid found]
  rw [isOwner] at called
  cases called with
  | @within earlier _ outer isOuter isOuterName =>
    have before : earlier < index := by
      have inTake := (List.getElem?_eq_some_iff.mp isOuterName).1
      rw [List.length_take] at inTake
      omega
    rw [List.getElem?_take_of_lt before] at isOuter isOuterName
    rw [settled.numberOf_heading laid isOuter]
    exact ⟨before, outer, name, isOuterName, isName, frees⟩

theorem map_numberOf :
    resolved.module.functions.map (fun function => layout.numberOf function.sym) =
      List.range resolved.module.functions.length := by
  refine List.ext_getElem (by simp) fun index bound bound' => ?_
  rw [List.getElem_map, List.getElem_range]
  exact Layout.numberOf_eq (functionIds_eq_some settled.fits settled.nodup laid (List.getElem?_eq_getElem _))

theorem routine_of
    (lowered : layout.functions.toList.mapM (·.lower layout resolved.symbols) =
      .ok program.routines.toList)
    {function : FunctionDef} (member : function ∈ resolved.module.functions) :
    ∃ routine, program.routines[layout.numberOf function.sym]? = some routine ∧
      LaidFunction.lower layout resolved.symbols ⟨routine.name, function.params, function.body⟩ =
        .ok routine := by
  obtain ⟨index, found⟩ := List.getElem?_of_mem member
  rw [Layout.numberOf_eq (functionIds_eq_some settled.fits settled.nodup laid found)]
  have laidAt : (layout.functions.toList.map fun function => (function.params, function.body))[index]? =
      some (function.params, function.body) := by
    rw [(numbers laid).functions, ← Module.functions, List.getElem?_map, found]
    rfl
  rw [List.getElem?_map] at laidAt
  obtain ⟨⟨name, params, body⟩, laidAt, same⟩ := Option.map_eq_some_iff.mp laidAt
  obtain ⟨rfl, rfl⟩ := Prod.mk.inj same
  obtain ⟨routine, isRoutine, ran⟩ := (Stateful.mapM_eq_ok lowered).2 index _ laidAt
  exact ⟨routine, by simpa using isRoutine, by rwa [(LaidFunction.lower_placed ran).1]⟩

end Laid

theorem lifts (settled : resolved.Settled) {mainName? : Option String}
    (made : resolved.module.generate resolved.symbols mainName? = .ok program) :
    ∃ number, program.Lifts resolved mainName? number := by
  obtain ⟨main, layout, entry, isMain, laid, lowered, isEntry, -, isProgram⟩ :=
    Module.generate_steps made
  have names := names_eq lowered
  have size : program.routines.size = resolved.module.functions.length := by
    have count := congrArg List.length (numbers laid).functions
    rw [List.length_map, List.length_map] at count
    rw [← Array.length_toList, ← (Program.mapM_forall₂ lowered).length_eq]
    exact count
  refine ⟨layout.numberOf, ?_, ?_, ?_, ?_, ?_, ?_⟩
  · rw [isProgram, names]
    exact (Layout.addStmts_qualified laid).distinct
  · rw [size]
    exact settled.map_numberOf laid
  · rw [names]
    exact fun heading member isTop => settled.top_name laid member isTop
  · rw [names]
    exact fun heading member owner isOwner => settled.nested_name laid member isOwner
  · intro function member
    obtain ⟨routine, isRoutine, ran⟩ := settled.routine_of laid lowered member
    have calls := LaidFunction.lower_callees ran
    refine ⟨layout, routine, laid, isRoutine, ran, ?_, fun sym called => ?_⟩
    · have values := congrArg (List.map fun number? => Option.getD number? 0) calls
      simp only [List.map_map, Function.comp_def, Option.getD_some, List.map_id'] at values
      exact values.symm
    · have listed := List.mem_map_of_mem (f := fun sym => layout.functionIds[sym]?) called
      rw [calls] at listed
      obtain ⟨callee, -, isCallee⟩ := List.mem_map.mp listed
      obtain ⟨function, found, same⟩ := (numbers laid).functionIds sym callee isCallee.symm
      exact ⟨function, List.mem_of_getElem? found, same⟩
  · obtain ⟨function, found, isFunction⟩ := (numbers laid).functionIds main entry isEntry
    refine ⟨function, List.mem_of_getElem? found, by rw [isFunction]; exact isMain, ?_⟩
    rw [isFunction, Layout.numberOf_eq isEntry]
    exact isProgram

end Resolved.Settled

/-- In the program of a module that was read and resolved all functions have different names, which tell
where each was declared, and every call goes to the function that it was resolved to. -/
theorem generate_lifts {source : String} {table names : NameTable} {m : Module .parsed}
    {resolved : Resolved} {mainName? : Option String} {program : Program}
    (parsed : (parseModule source table).1 = .ok m) (ran : m.resolve names = .ok resolved)
    (made : resolved.module.generate resolved.symbols mainName? = .ok program) :
    ∃ number, program.Lifts resolved mainName? number :=
  (m.resolve_settled (parseModule_writable parsed) ran).lifts made

def nestedText : String :=
  "func Main()->Boolean{{func F()->Boolean{true}F()}{func F()->Boolean{Execute()}F()}}
func Execute()->Boolean{true}"

theorem compile_nestedText : ∃ compilation, compile nestedText = .ok compilation ∧
    compilation.resolved.module.headings.map (fun heading => (heading.owner, heading.name)) =
      [(none, "Main"), (some 0, "F"), (some 0, "F"), (none, "Execute")] := by
  have chars : nestedText.toList = _ := String.toList_ofList
  apply Stateful.exists_eq_ok
  rw [compile, compileWith, resolveSource, parseModule, parseWith, Token.scan, chars]
  cbv

theorem generate_lifts_nestedText : ∃ m names resolved program,
    (parseModule nestedText .empty).1 = .ok m ∧ m.resolve names = .ok resolved ∧
      resolved.module.generate resolved.symbols (some "Main") = .ok program ∧
      resolved.module.headings.map (fun heading => (heading.owner, heading.name)) =
        [(none, "Main"), (some 0, "F"), (some 0, "F"), (none, "Execute")] ∧
      ∃ number, program.Lifts resolved (some "Main") number := by
  obtain ⟨compilation, compiled, headings⟩ := compile_nestedText
  obtain ⟨m, names, parsed, ran, made⟩ := compile_eq_ok.mp compiled
  have read : (parseModule nestedText .empty).1 = .ok m := by rw [parsed]
  have mainName := mainName?_parseModule nestedText
  rw [parsed] at mainName
  rw [mainName] at made
  exact ⟨m, names, compilation.resolved, compilation.program, read, ran, made, headings,
    generate_lifts read ran made⟩

end LetChain
