import LetChain.Compilation
import LetChain.Proofs.Lowering.Numbered
import LetChain.Proofs.Machine.Outcome
import LetChain.Proofs.Scoping.Agreement
import LetChain.Proofs.Syntax.Mirrored
import LetChain.Proofs.Typing.Decorated

/-! What compilation makes: a program that is linked to the functions and records of the resolved
module, and an entry that calls its main function. -/

namespace LetChain

open Meaning

@[simp] theorem Symbol.forgetScope_forgetScope (symbol : Symbol) :
    symbol.forgetScope.forgetScope = symbol.forgetScope := by
  obtain ⟨name, ty, kind, span, owner⟩ := symbol
  cases kind <;> rfl

theorem Resolved.globals_forgetScopes (resolved : Resolved) :
    resolved.forgetScopes.globals = resolved.globals := by
  simp [globals, forgetScopes]

theorem Module.resolve_typed {m : Module .parsed} {names : NameTable} {resolved : Resolved}
    (top : ∀ stmt ∈ m.stmts, stmt.IsDeclaration) (ran : m.resolve names = .ok resolved) :
    (resolved.module.declarations.map Declaration.sym).Nodup ∧
      ∀ declaration ∈ resolved.module.declarations,
        Typing.DeclarationTyped resolved.globals declaration := by
  have checked : m.check names = .ok resolved.forgetScopes := by
    rw [← m.forgetScopes_resolve names, ran]
    rfl
  have typed := m.check_typed top checked
  rw [resolved.globals_forgetScopes] at typed
  refine ⟨?_, typed⟩
  obtain ⟨-, -, ⟨new, fresh, perm⟩, -⟩ := m.check_decorated top checked
  rw [Module.declarations, Stmt.allDeclarations_eq none]
  exact (perm.nodup_iff.mpr fresh.nodup).sublist (Node.declared_sublist _)

/-! ### The program of a module -/

namespace Module

theorem topLevel?_of_main? {m : Module .typed} {name : String} {stmt : Stmt .typed}
    (found : m.main? (some name) = some stmt) :
    ∃ ident params returns body span sym, stmt = .func ident params returns body span sym ∧
      stmt ∈ m.stmts ∧ topLevel? m name = some sym := by
  obtain ⟨stmts⟩ := m
  simp only [main?, topLevel?] at found ⊢
  induction stmts with
  | nil => cases found
  | cons first rest ih =>
    have later (skipped : rest.find? _ = some stmt) := ih skipped
    cases first with
    | func ident params returns body span sym =>
      by_cases same : ident.text = name
      · rw [List.find?_cons_of_pos (by simp [same])] at found
        cases found
        exact ⟨ident, params, returns, body, span, sym, rfl, List.mem_cons_self, by simp [same]⟩
      · rw [List.find?_cons_of_neg (by simp [same])] at found
        obtain ⟨_, _, _, _, _, sym', isFunc, member, top⟩ := later found
        exact ⟨_, _, _, _, _, sym', isFunc, List.mem_cons_of_mem _ member, by simp [same, top]⟩
    | _ =>
      rw [List.find?_cons_of_neg (by simp)] at found
      obtain ⟨_, _, _, _, _, sym', isFunc, member, top⟩ := later found
      exact ⟨_, _, _, _, _, sym', isFunc, List.mem_cons_of_mem _ member, top⟩

theorem mainSymbol_mem {m : Module .typed} {mainName? : Option String} {sym : SymbolId}
    (ran : m.mainSymbol mainName? = .ok sym) :
    ∃ name returns body span,
      Stmt.func name [] returns body span sym ∈ m.stmts ∧ some name.text = mainName? := by
  rw [mainSymbol] at ran
  split at ran
  case h_1 name params returns body span sym' found =>
    split at ran
    case isTrue isEmpty =>
      cases ran
      obtain rfl := List.isEmpty_iff.mp isEmpty
      exact ⟨name, returns, body, span, List.mem_of_find?_eq_some found,
        by simpa using List.find?_some found⟩
    case isFalse => cases ran
  case h_2 => cases ran

theorem mainSymbol_function {m : Module .typed} {mainName? : Option String} {sym : SymbolId}
    (ran : m.mainSymbol mainName? = .ok sym) : ∃ body, ⟨sym, 0, body⟩ ∈ m.functions := by
  obtain ⟨name, returns, body, span, member, -⟩ := mainSymbol_mem ran
  refine ⟨body, mem_functions.mpr (Stmt.mem_allDeclarations member ?_)⟩
  rw [Stmt.declarations]
  exact List.mem_cons_self

theorem topLevel?_of_mainSymbol {m : Module .typed} {name : String} {sym : SymbolId}
    (ran : m.mainSymbol (some name) = .ok sym) : topLevel? m name = some sym := by
  rw [mainSymbol] at ran
  split at ran
  · rename_i ident params returns body span sym' found
    obtain ⟨_, _, _, _, _, _, same, member, top⟩ := topLevel?_of_main? found
    cases same
    split at ran
    · cases ran
      exact top
    · cases ran
  · cases ran

end Module

theorem Layout.Numbers.routines {symbols : Symbols} {layout : Layout} {declared : List Declaration}
    {routines : Array Routine} (numbers : layout.Numbers symbols declared)
    (ran : layout.functions.mapM (·.lower layout symbols) = .ok routines) :
    routines.size = (declared.filterMap Declaration.function?).length ∧
      ∀ (index : Nat) (function : FunctionDef),
        (declared.filterMap Declaration.function?)[index]? = some function →
        function.body.locals.Nodup → ∃ routine, routines[index]? = some routine ∧
          Site.Implements ⟨layout, symbols, routine, function.body.locals⟩ function := by
  rw [Array.mapM_eq_mapM_toList] at ran
  obtain ⟨lowered, ranList, same⟩ := Stateful.except_bind_eq_ok.mp ran
  cases same
  obtain ⟨length, each⟩ := Stateful.mapM_eq_ok ranList
  constructor
  · have sameLength := congrArg List.length numbers.functions
    rw [List.length_map, List.length_map] at sameLength
    exact length.trans sameLength
  · intro index function found nodup
    have laidAt : (layout.functions.toList.map fun function => (function.params, function.body))[index]? =
        some (function.params, function.body) := by
      rw [numbers.functions, List.getElem?_map, found]
      rfl
    rw [List.getElem?_map] at laidAt
    obtain ⟨laid, laidAt, same⟩ := Option.map_eq_some_iff.mp laidAt
    obtain ⟨sameParams, sameBody⟩ := Prod.mk.inj same
    obtain ⟨routine, routineAt, ranLower⟩ := each index laid laidAt
    obtain ⟨-, params, locals, stop, code, ends, size, marks⟩ := laid.lower_placed ranLower
    rw [sameBody] at locals code ends
    exact ⟨routine, by simpa using routineAt, params.trans sameParams, locals, nodup,
      ⟨stop, code, ends, size⟩, marks⟩

namespace Resolved

variable {resolved : Resolved}

theorem recordOf_eq {sym : SymbolId} {name : String}
    (named : (resolved.globals.symbol sym).name = name) :
    Layout.recordOf resolved.symbols name sym =
      ⟨(resolved.globals.symbol sym).name,
        resolved.globals.names (resolved.globals.symbol sym).fields,
        List.range (resolved.globals.symbol sym).fields.length⟩ := by
  have fields : (resolved.symbols.get sym).forgetScope.fields = resolved.symbols.fields sym := by
    rw [← Symbols.fields_forgetScopes, Symbols.fields, Symbols.get_forgetScopes]
  subst named
  simp only [Layout.recordOf, globals, Globals.names, fields]
  rfl

theorem generate_linked {program : Program} {mainName? : Option String}
    (nodup : (resolved.module.declarations.map Declaration.sym).Nodup)
    (typed : ∀ declaration ∈ resolved.module.declarations,
      Typing.DeclarationTyped resolved.globals declaration)
    (ran : resolved.module.generate resolved.symbols mainName? = .ok program) :
    ∃ layout index main, Linked program layout resolved.symbols resolved.globals ∧
      program.entry = Program.entryOf index ∧ resolved.globals.functions[index]? = some main ∧
      resolved.module.mainSymbol mainName? = .ok main.sym ∧ main.params = 0 ∧
      ∀ record ∈ program.records, record.order = List.range record.fields.length := by
  rw [Module.generate] at ran
  obtain ⟨sym, ranMain, ran⟩ := Stateful.except_bind_eq_ok.mp ran
  obtain ⟨layout, ranLayout, ran⟩ := Stateful.except_bind_eq_ok.mp ran
  obtain ⟨routines, ranRoutines, ran⟩ := Stateful.except_bind_eq_ok.mp ran
  obtain ⟨index, ranId, ran⟩ := Stateful.except_bind_eq_ok.mp ran
  cases ran
  have numbers : layout.Numbers resolved.symbols resolved.module.declarations :=
    (Layout.numbers_empty resolved.symbols).addStmts _ ranLayout
  obtain ⟨count, implements⟩ := numbers.routines ranRoutines
  have linked : Linked ⟨routines, layout.records, Program.entryOf index⟩ layout resolved.symbols
      resolved.globals := by
    constructor
    · exact fun _ => rfl
    · exact fun function member => typed _ (Module.mem_functions.mp member)
    · exact (resolved.module.functions_sublist).nodup nodup
    · exact count
    · intro index function found
      exact implements index function found (Module.nodup_locals nodup (List.mem_of_getElem? found))
    · exact numbers.functionIds
    · intro sym index found
      obtain ⟨name, member, present⟩ := numbers.recordIds sym index found
      rw [present, recordOf_eq (typed _ member)]
  have isSym := Stateful.mapError_eq_ok.mp ranMain
  obtain ⟨body, isMain⟩ := Module.mainSymbol_function isSym
  obtain ⟨main, found, rfl⟩ := numbers.functionIds sym index (Writes.functionId_eq_ok ranId)
  -- Only one function has the symbol of the main one.
  obtain ⟨index', found'⟩ := List.getElem?_of_mem isMain
  have same : main = ⟨main.sym, 0, body⟩ := Option.some.inj
    ((linked.find?_eq_some found).symm.trans (linked.find?_eq_some found'))
  exact ⟨layout, index, main, linked, rfl, found, isSym, congrArg FunctionDef.params same,
    numbers.orders⟩

end Resolved

theorem compile_eq_ok {source : String} {compilation : Compilation} :
    compile source = .ok compilation ↔ ∃ m names, parseModule source .empty = (.ok m, names) ∧
      m.resolve names = .ok compilation.resolved ∧
      compilation.resolved.module.generate compilation.resolved.symbols names.mainName? =
        .ok compilation.program := by
  constructor
  · intro ran
    simp only [compile, compileWith, resolveSource] at ran
    rcases parsed : parseModule source .empty with ⟨error | m, names⟩
    · rw [parsed] at ran
      cases ran
    · cases resolves : m.resolve names with
      | error error =>
        simp only [parsed, resolves] at ran
        cases ran
      | ok resolved =>
        cases generates : resolved.module.generate resolved.symbols names.mainName? with
        | error halt =>
          simp only [parsed, resolves, generates] at ran
          cases ran
        | ok program =>
          simp only [parsed, resolves, generates] at ran
          cases ran
          exact ⟨m, names, rfl, resolves, generates⟩
  · rintro ⟨m, names, parsed, resolves, generates⟩
    simp only [compile, compileWith, resolveSource, parsed, resolves, generates]

theorem compile_linked {source : String} {compilation : Compilation}
    (compiled : compile source = .ok compilation) :
    ∃ layout index main,
      Linked compilation.program layout compilation.resolved.symbols compilation.resolved.globals ∧
      Enters compilation.program compilation.resolved index main := by
  obtain ⟨m, names, parsed, resolves, generates⟩ := compile_eq_ok.mp compiled
  obtain ⟨nodup, typed⟩ :=
    m.resolve_typed (parseModule_isDeclaration (congrArg Prod.fst parsed)) resolves
  have mainName := mainName?_parseModule source
  rw [parsed] at mainName
  rw [mainName] at generates
  obtain ⟨layout, index, main, linked, entry, found, isMain, noParams, -⟩ :=
    compilation.resolved.generate_linked nodup typed generates
  exact ⟨layout, index, main, linked, entry, found, Module.topLevel?_of_mainSymbol isMain, noParams⟩

end LetChain
