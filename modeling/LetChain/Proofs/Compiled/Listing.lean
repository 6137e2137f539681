import LetChain.Proofs.Code.Listed
import LetChain.Proofs.Compiled.Verification
import LetChain.Proofs.Compiled.Decoration
import LetChain.Proofs.Lowering.Named

/-! What the listing of a compiled program tells. Names of functions tell them apart, but records of
one name can have different fields, and only if they do not does the listing say what the program
does. -/

namespace LetChain

open Layout (Blank Named)

theorem blank_space : Blank ' ' := ⟨rfl, by decide, by decide⟩

theorem blank_newline : Blank '\n' := ⟨rfl, by decide, by decide⟩

theorem unbroken_of_isName {name : String} (isName : Text.isName name = true) : Unbroken name :=
  ⟨Text.notMem_of_isName isName rfl, Text.notMem_of_isName isName rfl⟩

theorem unbroken_entryName : Unbroken Program.entryName := ⟨by decide, by decide⟩

theorem Module.generate_layout {m : Module .typed} {symbols : Symbols} {mainName? : Option String}
    {program : Program} (ran : m.generate symbols mainName? = .ok program) :
    ∃ layout, Layout.addStmts symbols none .empty m.stmts = .ok layout ∧
      program.records = layout.records ∧
      program.routines.toList.map Routine.name =
        layout.functions.toList.map LaidFunction.name := by
  rw [Module.generate] at ran
  obtain ⟨_, _, ran⟩ := Stateful.except_bind_eq_ok.mp ran
  obtain ⟨layout, ranLayout, ran⟩ := Stateful.except_bind_eq_ok.mp ran
  obtain ⟨routines, ranRoutines, ran⟩ := Stateful.except_bind_eq_ok.mp ran
  obtain ⟨_, _, ran⟩ := Stateful.except_bind_eq_ok.mp ran
  cases ran
  refine ⟨layout, ranLayout, rfl, ?_⟩
  rw [Array.mapM_eq_mapM_toList] at ranRoutines
  obtain ⟨lowered, ranList, same⟩ := Stateful.except_bind_eq_ok.mp ranRoutines
  cases same
  rw [← List.forall₂_eq_eq_eq, List.forall₂_map_left_iff, List.forall₂_map_right_iff]
  exact (Program.mapM_forall₂ ranList).flip.imp fun _ _ ran => (LaidFunction.lower_placed ran).1

theorem Resolved.Decorates.spelled {resolved : Resolved} {m : Module .parsed} {number : Float → Prop}
    (decorates : resolved.Decorates m) (writable : m.Writable number) :
    ∀ node ∈ resolved.module.nodes, node.part.Spelled := by
  have erased : Stmt.eraseAll resolved.module.stmts = m.stmts :=
    congrArg Module.stmts decorates.erase
  have isWritable := writable.1
  rw [← erased] at isWritable
  exact Stmt.allNodes_spelled resolved.module.stmts isWritable

theorem Resolved.Decorates.recordOf_eq {resolved : Resolved} {m : Module .parsed}
    (decorates : resolved.Decorates m) {owner : Option SymbolId} {name : Ident}
    {fields : List (Binding .typed)} {span : Span} {sym : SymbolId}
    (member : ⟨owner, .stmt (.record name fields span sym)⟩ ∈ resolved.module.nodes) :
    Layout.recordOf resolved.symbols name.text sym =
      ⟨name.text, fields.map (·.name.text), List.range fields.length⟩ := by
  obtain ⟨named, fieldNames, kind⟩ := decorates.nodes _ member
  have isRecord : (resolved.globals.symbol sym).fields = fields.map Binding.sym := by
    rw [Symbol.fields, kind]
  rw [resolved.recordOf_eq named, named, isRecord, List.length_map, Globals.names, List.map_map]
  congr 1
  exact List.map_congr_left fun field listed => fieldNames field listed

theorem Resolved.Decorates.legible_record {resolved : Resolved} {m : Module .parsed}
    {number : Float → Prop} (decorates : resolved.Decorates m) (writable : m.Writable number)
    (sound : Lexical.Sound resolved.symbols.forgetScopes) {owner : Option SymbolId} {name : Ident}
    {fields : List (Binding .typed)} {span : Span} {sym : SymbolId}
    (member : ⟨owner, .stmt (.record name fields span sym)⟩ ∈ resolved.module.nodes) :
    (Layout.recordOf resolved.symbols name.text sym).Legible := by
  obtain ⟨isName, areFields⟩ := decorates.spelled writable _ member
  obtain ⟨-, fieldNames, kind⟩ := decorates.nodes _ member
  rw [decorates.recordOf_eq member]
  refine ⟨unbroken_of_isName isName, Text.notMem_of_isName isName rfl, ?_, ?_, by simp⟩
  · intro field listed
    obtain ⟨binding, isField, rfl⟩ := List.mem_map.mp listed
    have isName := areFields binding isField
    exact ⟨unbroken_of_isName isName, Text.ne_empty_of_isName isName⟩
  · have isRecord : (resolved.symbols.forgetScopes.get sym).kind =
        .record (fields.map Binding.sym) := by
      rw [Symbols.get_forgetScopes]
      exact kind
    have distinct := sound.nodup_fields isRecord
    rw [List.map_map] at distinct
    refine (List.map_congr_left fun field listed => ?_) ▸ distinct
    rw [← fieldNames field listed]
    simp [Resolved.globals]

theorem compile_legible {source : String} {compilation : Compilation}
    (compiled : compile source = .ok compilation) : compilation.program.Legible := by
  obtain ⟨m, names, parsed, resolves, generates⟩ := compile_eq_ok.mp compiled
  obtain ⟨layout', index, main, linked, entry, found, -, noParams⟩ := compile_linked compiled
  obtain ⟨layout, ranLayout, records, routineNames⟩ := Module.generate_layout generates
  have isModule : (parseModule source .empty).1 = .ok m := congrArg Prod.fst parsed
  have writable := parseModule_writable isModule
  have decorates := m.resolve_decorated writable.2 resolves
  obtain ⟨-, sound, -, -⟩ := m.resolve_sound writable.2 resolves
  have named {c : Char} (blank : Blank c) : Named compilation.resolved.symbols
      (fun part => ∃ owner, ⟨owner, part⟩ ∈ compilation.resolved.module.nodes) c layout := by
    refine (Layout.keeps_named ?_ blank).addStmts compilation.resolved.module.stmts
      (fun node member => ⟨node.owner, member⟩) (by simp) (Named.empty _ _ _) ranLayout
    rintro part ⟨owner, member⟩
    exact decorates.spelled writable _ member
  have plain {c : Char} (blank : Blank c) {routine : Routine}
      (member : routine ∈ compilation.program.routines) : c ∉ routine.name.toList := by
    have listed : routine.name ∈ compilation.program.routines.toList.map Routine.name :=
      List.mem_map_of_mem (Array.mem_def.mp member)
    rw [routineNames] at listed
    obtain ⟨function, isFunction, same⟩ := List.mem_map.mp listed
    rw [← same]
    exact (named blank).plain function (Array.mem_def.mpr isFunction)
  refine ⟨fun routine member => ⟨⟨?_, ?_⟩, ?_⟩, ?_, ?_, fun record member => ?_⟩
  · exact plain blank_space member
  · exact plain blank_newline member
  · exact (linked.routine_verified member).marks
  · rw [entry]
    exact ⟨unbroken_entryName, (linked.entry_verified found noParams).marks⟩
  · rw [routineNames]
    exact (named blank_space).distinct
  · rw [records] at member
    obtain ⟨name, fields, span, sym, ⟨owner, isNode⟩, rfl⟩ :=
      (named blank_space).records record member
    exact decorates.legible_record writable sound isNode

/-- If records of one name have the same fields, the listing determines what the program does: what it
writes, and what it fails with if it fails. -/
theorem listing_determines_outcome {source source' text : String}
    {compilation compilation' : Compilation} (compiled : compile source = .ok compilation)
    (compiled' : compile source' = .ok compilation')
    (listed : compilation.program.listing = .ok text)
    (listed' : compilation'.program.listing = .ok text)
    (unambiguous : compilation.program.Unambiguous) (limits : Limits) (machine : Machine)
    (fuel : Nat) (sink : Sink) :
    (machine.execute compilation.program limits fuel sink).Same Eq
      (machine.execute compilation'.program limits fuel sink) := by
  have twins := Program.listing_twin (compile_legible compiled) (compile_legible compiled')
    unambiguous listed listed'
  exact twins.execute_same limits machine fuel sink

def doubleProgram (record : Nat) : Program :=
  ⟨#[⟨"Main", 0, 0, 0, #[.pushBool true, .pop, .construct record, .pop, .pushBool true, .ret], #[]⟩],
    #[⟨"P", [], []⟩, ⟨"P", [], []⟩], Program.entryOf 0⟩

theorem compile_outerRecord : ∃ compilation,
    compile "func Main()->Boolean{type P{}{type P{}true}P{}true}" = .ok compilation ∧
      compilation.program = doubleProgram 0 := by
  have chars : "func Main()->Boolean{type P{}{type P{}true}P{}true}".toList = _ := String.toList_ofList
  apply Stateful.exists_eq_ok
  rw [compile, compileWith, resolveSource, parseModule, parseWith, Token.scan, chars]
  cbv

theorem compile_laterRecord : ∃ compilation,
    compile "func Main()->Boolean{{type P{}true}type P{}P{}true}" = .ok compilation ∧
      compilation.program = doubleProgram 1 := by
  have chars : "func Main()->Boolean{{type P{}true}type P{}P{}true}".toList = _ := String.toList_ofList
  apply Stateful.exists_eq_ok
  rw [compile, compileWith, resolveSource, parseModule, parseWith, Token.scan, chars]
  cbv

theorem listing_determines_outcome_doubleProgram : ∃ compilation compilation' text,
    compile "func Main()->Boolean{type P{}{type P{}true}P{}true}" = .ok compilation ∧
    compile "func Main()->Boolean{{type P{}true}type P{}P{}true}" = .ok compilation' ∧
    compilation.program.listing = .ok text ∧ compilation'.program.listing = .ok text ∧
    compilation.program.Unambiguous ∧ compilation.program ≠ compilation'.program ∧
    ∀ limits fuel, (Machine.fresh.execute compilation.program limits fuel .unlimited).Same Eq
      (Machine.fresh.execute compilation'.program limits fuel .unlimited) := by
  obtain ⟨compilation, compiled, isProgram⟩ := compile_outerRecord
  obtain ⟨compilation', compiled', isProgram'⟩ := compile_laterRecord
  obtain ⟨text, listed⟩ : ∃ text, (doubleProgram 0).listing = .ok text := ⟨_, rfl⟩
  have listed' : (doubleProgram 1).listing = .ok text := listed
  have unambiguous : (doubleProgram 0).Unambiguous := by
    simp [Program.Unambiguous, doubleProgram]
  rw [← isProgram] at listed unambiguous
  rw [← isProgram'] at listed'
  refine ⟨compilation, compilation', text, compiled, compiled', listed, listed', unambiguous, ?_,
    fun limits fuel => listing_determines_outcome compiled compiled' listed listed' unambiguous limits
      .fresh fuel .unlimited⟩
  rw [isProgram, isProgram']
  simp [doubleProgram]

end LetChain
