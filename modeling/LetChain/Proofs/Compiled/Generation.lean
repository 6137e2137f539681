import LetChain.Lowering.Prune
import LetChain.Proofs.Compiled.Decoration

/-! A resolved module has a program, unless there is a reason in the module. So has a module of which
top-level statements were left out, where references into these are one more reason. -/

namespace LetChain

open Stateful (bind_eq_ok)

theorem Stmt.eraseAll_eq_map (stmts : List (Stmt .typed)) :
    Stmt.eraseAll stmts = stmts.map Stmt.erase := by
  induction stmts with
  | nil => rfl
  | cons first rest ih => rw [Stmt.eraseAll, ih, List.map_cons]

theorem Module.resolve_distinct {m : Module .parsed} {names : NameTable} {resolved : Resolved}
    (ran : m.resolve names = .ok resolved) (erased : resolved.module.erase = m) :
    (resolved.module.stmts.filterMap Stmt.functionName?).Nodup := by
  have checked : m.check names = .ok resolved.forgetScopes := by
    rw [← m.forgetScopes_resolve names, ran]
    rfl
  obtain ⟨⟨stmts, symbols⟩, ranAll, -⟩ := Stateful.except_bind_eq_ok.mp checked
  obtain ⟨⟨env, ids⟩, s₁, ranHoist, -⟩ := bind_eq_ok.mp ranAll
  have hoisted := Lexical.hoist_spec ranHoist
  have distinct := hoisted.named.distinct List.nodup_nil
  rw [hoisted.named.names, List.map_append, List.map_append, hoisted.functionNames] at distinct
  replace distinct := (List.nodup_append.mp (List.nodup_append.mp distinct).2.1).2.1
  have same : Stmt.functionName? ∘ Stmt.erase = Stmt.functionName? := by
    funext stmt
    cases stmt <;> simp [Stmt.erase, Stmt.functionName?]
  rw [← erased, Module.erase, Stmt.eraseAll_eq_map, List.filterMap_map, same] at distinct
  exact distinct

namespace Module

/-- A top-level function under the main name, without parameters. -/
def HasMain (m : Module .typed) (mainName? : Option String) : Prop :=
  ∃ name returns body span sym,
    Stmt.func name [] returns body span sym ∈ m.stmts ∧ some name.text = mainName?

variable {m : Module .typed} {mainName? : Option String}

theorem eq_of_functionName? {stmts : List (Stmt .typed)}
    (distinct : (stmts.filterMap Stmt.functionName?).Nodup) {first second : Stmt .typed}
    (isFirst : first ∈ stmts) (isSecond : second ∈ stmts) {name : String}
    (named : first.functionName? = some name) (named' : second.functionName? = some name) :
    first = second := by
  induction stmts with
  | nil => cases isFirst
  | cons stmt rest ih =>
    have later (others : (rest.filterMap Stmt.functionName?).Nodup)
        (new : stmt.functionName? = some name → name ∉ rest.filterMap Stmt.functionName?) :
        first = second := by
      rcases List.mem_cons.mp isFirst with rfl | inRest
      · rcases List.mem_cons.mp isSecond with rfl | inRest'
        · rfl
        · exact absurd (List.mem_filterMap.mpr ⟨second, inRest', named'⟩) (new named)
      · rcases List.mem_cons.mp isSecond with rfl | inRest'
        · exact absurd (List.mem_filterMap.mpr ⟨first, inRest, named⟩) (new named')
        · exact ih others inRest inRest'
    cases found : stmt.functionName? with
    | none =>
      rw [List.filterMap_cons_none found] at distinct
      exact later distinct (by simp [found])
    | some other =>
      rw [List.filterMap_cons_some found, List.nodup_cons] at distinct
      refine later distinct.2 fun same => ?_
      cases found.symm.trans same
      exact distinct.1

theorem exists_mainSymbol_iff (distinct : (m.stmts.filterMap Stmt.functionName?).Nodup) :
    (∃ sym, m.mainSymbol mainName? = .ok sym) ↔ m.HasMain mainName? := by
  constructor
  · rintro ⟨sym, ran⟩
    obtain ⟨name, returns, body, span, member, named⟩ := mainSymbol_mem ran
    exact ⟨name, returns, body, span, sym, member, named⟩
  · rintro ⟨name, returns, body, span, sym, member, rfl⟩
    cases found : m.main? (some name.text) with
    | none =>
      have absent := List.find?_eq_none.mp found _ member
      simp at absent
    | some stmt =>
      have named := List.find?_some found
      have same : stmt = .func name [] returns body span sym := by
        cases stmt with
        | func name' _ _ _ _ _ =>
          have sameName : some name'.text = some name.text := by simpa using named
          exact eq_of_functionName? distinct (List.mem_of_find?_eq_some found) member sameName rfl
        | _ => simp at named
      exact ⟨sym, by rw [mainSymbol, found, same]; rfl⟩

end Module

def Declaration.role : Declaration → String
  | .localVar _ => "local"
  | .function _ => "function"
  | .record _ _ => "type"

theorem Resolved.Decorates.declaration {resolved : Resolved} {m : Module .parsed} {sym : SymbolId}
    (decorates : resolved.Decorates m) {role : String}
    (isRole : (resolved.globals.symbol sym).kind.role = role) (listed : role ∈ ["function", "type"]) :
    ∃ declaration ∈ resolved.module.declarations,
      declaration.sym = sym ∧ declaration.role = role := by
  have bound : sym < resolved.symbols.size :=
    Resolved.bound_of_role isRole (by rintro rfl; simp at listed)
  have declared := decorates.declares.mem_iff.mpr (List.mem_range.mpr bound)
  obtain ⟨⟨owner, part⟩, member, declares⟩ := List.mem_flatMap.mp declared
  have fits := decorates.nodes _ member
  have found {declaration : Declaration} (isDeclaration : part.declaration? = some declaration)
      (kind : (resolved.globals.symbol declaration.sym).kind.role = declaration.role)
      (same : sym = declaration.sym) : ∃ declaration ∈ resolved.module.declarations,
        declaration.sym = sym ∧ declaration.role = role := by
    subst same
    refine ⟨declaration, ?_, rfl, kind.symm.trans isRole⟩
    rw [Module.declarations, Stmt.allDeclarations_eq none]
    exact List.mem_filterMap.mpr ⟨_, member, isDeclaration⟩
  have other (kind : SymbolKind) (isKind : (resolved.symbols.get sym).kind = kind)
      (unlisted : kind.role ∉ ["function", "type"]) : ∃ declaration ∈ resolved.module.declarations,
        declaration.sym = sym ∧ declaration.role = role := by
    have same : (resolved.globals.symbol sym).kind.role = kind.role := by
      rw [← isKind]
      exact SymbolKind.role_forgetScope
    rw [← isRole, same] at listed
    exact absurd listed unlisted
  cases part with
  | expr e =>
    cases e with
    | foreach element elementType source body own span ty =>
      obtain ⟨⟨⟨-, kind, -⟩, -⟩, -⟩ := fits
      exact found rfl (by rw [Declaration.sym, kind]; rfl) (List.mem_singleton.mp declares)
    | _ => cases declares
  | block body => cases declares
  | stmt stmt =>
    cases stmt with
    | letIn name type first chained span own =>
      obtain ⟨⟨-, kind, -⟩, -⟩ := fits
      exact found rfl (by rw [Declaration.sym, kind]; rfl) (List.mem_singleton.mp declares)
    | func name params returns body span own =>
      obtain ⟨-, -, ty, kind, -⟩ := fits
      rcases List.mem_cons.mp declares with same | isParam
      · exact found rfl (by rw [Declaration.sym, kind]; rfl) same
      · obtain ⟨index, place⟩ := List.getElem?_of_mem isParam
        obtain ⟨scope, kind⟩ := SymbolKind.forgetScope_eq_function.mp kind
        exact other _ (decorates.param own _ ty scope kind index sym place).1
          (by simp [SymbolKind.role])
    | record name fields span own =>
      obtain ⟨-, -, kind⟩ := fits
      rcases List.mem_cons.mp declares with same | isField
      · exact found rfl (by rw [Declaration.sym, kind]; rfl) same
      · obtain ⟨index, place⟩ := List.getElem?_of_mem isField
        have kind := SymbolKind.forgetScope_eq_record.mp kind
        exact other _ (decorates.field own _ kind index sym place) (by simp [SymbolKind.role])
    | expr value => cases declares

/-! ### Why there may be no program -/

/-- A part refers to what a declaration makes. -/
def Part.Uses : Part → Declaration → Prop
  | .expr (.call _ _ sym _ _), .function definition => definition.sym = sym
  | .expr (.construct _ _ sym _ _), .record own _ => own = sym
  | .expr (.member base _ _ _ _), .record own _ => ∃ name, base.ty = .record own name
  | _, _ => False

def Declaration.Numbered (layout : Layout) : Declaration → Prop
  | .localVar _ => True
  | .function definition => definition.sym ∈ layout.functionIds
  | .record sym _ => sym ∈ layout.recordIds

theorem Layout.Extends.numbered {layout layout' : Layout} {declared : List Declaration}
    (extended : layout.Extends layout' declared) {declaration : Declaration}
    (member : declaration ∈ declared) : declaration.Numbered layout' := by
  cases declaration with
  | localVar sym => trivial
  | function definition => exact extended.functionIds _ (Or.inr ⟨definition, member, rfl⟩)
  | record sym name => exact extended.recordIds _ (Or.inr ⟨name, member⟩)

theorem Resolved.Decorates.uses {resolved : Resolved} {m : Module .parsed} {owner : SymbolId}
    (decorates : resolved.Decorates m) {part : Part} {layout : Layout}
    (known : part.Known resolved owner) (missing : part.Missing layout) :
    ∃ declaration ∈ resolved.module.declarations,
      part.Uses declaration ∧ ¬declaration.Numbered layout := by
  have fits := known.decorated
  have unnumbered {ids : Std.HashMap SymbolId Nat} {sym : SymbolId} (absent : ids[sym]? = none) :
      sym ∉ ids := by simpa using absent
  have function {sym : SymbolId} (isFunction : (resolved.globals.symbol sym).kind.role = "function")
      (absent : layout.functionIds[sym]? = none) : ∃ definition,
        Declaration.function definition ∈ resolved.module.declarations ∧ definition.sym = sym ∧
          ¬(Declaration.function definition).Numbered layout := by
    obtain ⟨declaration, member, rfl, same⟩ := decorates.declaration isFunction (by simp)
    cases declaration with
    | function definition => exact ⟨definition, member, rfl, unnumbered absent⟩
    | _ => simp [Declaration.role] at same
  have record {sym : SymbolId} (isRecord : (resolved.globals.symbol sym).kind.role = "type")
      (absent : layout.recordIds[sym]? = none) : ∃ name,
        Declaration.record sym name ∈ resolved.module.declarations ∧
          ¬(Declaration.record sym name).Numbered layout := by
    obtain ⟨declaration, member, rfl, same⟩ := decorates.declaration isRecord (by simp)
    cases declaration with
    | record own name => exact ⟨name, member, unnumbered absent⟩
    | _ => simp [Declaration.role] at same
  cases part with
  | expr e =>
    cases e with
    | call name args sym span ty =>
      obtain ⟨⟨-, params, isFunction, -⟩, -⟩ := fits
      obtain ⟨definition, member, isSym, absent⟩ := function (by rw [isFunction]; rfl) missing
      exact ⟨_, member, isSym, absent⟩
    | construct name args sym span ty =>
      obtain ⟨⟨-, -, fields, isRecord, -⟩, -⟩ := fits
      obtain ⟨name, member, absent⟩ := record (by rw [isRecord]; rfl) missing
      exact ⟨_, member, rfl, absent⟩
    | member base field sym span ty =>
      obtain ⟨id, name, isRecord, absent⟩ := missing
      obtain ⟨⟨id', name', isRecord', ⟨-, _, _, kind, -⟩, -⟩, -⟩ := fits
      obtain ⟨rfl, rfl⟩ : id' = id ∧ name' = name := by simpa using isRecord'.symm.trans isRecord
      obtain ⟨_, member, absent⟩ := record (by rw [kind]; rfl) absent
      exact ⟨_, member, ⟨name', isRecord⟩, absent⟩
    | _ => cases missing
  | _ => cases missing

/-- Nothing is more than can be numbered or counted. -/
structure Module.WithinLimits (m : Module .typed) : Prop where
  functions : m.functions.length ≤ Layout.maxIds
  records : Declaration.recordCount m.declarations ≤ Layout.maxIds
  params : ∀ function ∈ m.functions, function.params ≤ Draft.maxSlots
  resources : ∀ function ∈ m.functions, ∀ resource : Resource,
    Part.costs function.body.parts resource ≤ resource.limit

/-- Why a module has no program, when declarations were deleted from it. -/
inductive Module.Refuses (m : Module .typed) (mainName? : Option String)
    (deleted : List Declaration) : LowerError → Prop
  | missingEntryPoint :
      (∀ stmt ∈ m.stmts, ∀ name, stmt.functionName? = some name → some name ≠ mainName?) →
      Refuses m mainName? deleted .missingEntryPoint
  | entryPointParameters {name params returns body span sym} :
      .func name params returns body span sym ∈ m.stmts → some name.text = mainName? → params ≠ [] →
      Refuses m mainName? deleted (.entryPointParameters params.length)
  | noEquality {node ty} : node ∈ m.nodes → node.part.ComparesSequences →
      Refuses m mainName? deleted (.noEquality ty)
  | tooMany {what} : ¬m.WithinLimits → Refuses m mainName? deleted (.tooMany what)
  | unresolved {node declaration name} : node ∈ m.nodes → declaration ∈ deleted →
      node.part.Uses declaration → Refuses m mainName? deleted (.unresolved name)

namespace Resolved

structure Generable (resolved : Resolved) : Prop where
  typed : ∀ function ∈ resolved.module.functions, Typing.FunctionTyped resolved.globals function
  known : ∀ function ∈ resolved.module.functions, ∀ part ∈ function.body.parts,
    part.Known resolved function.sym
  fits : ∀ declaration ∈ resolved.module.declarations, declaration.Fits resolved.symbols
  uses : ∀ function ∈ resolved.module.functions, ∀ part ∈ function.body.parts, ∀ layout,
    part.Missing layout → ∃ declaration ∈ resolved.module.declarations,
      part.Uses declaration ∧ ¬declaration.Numbered layout

end Resolved

theorem Module.mem_nodes {m : Module .typed} {function : FunctionDef} (member : function ∈ m.functions)
    {part : Part} (isPart : part ∈ function.body.parts) : ⟨some function.sym, part⟩ ∈ m.nodes :=
  (Stmt.mem_allNodes_iff m.stmts).mpr
    (Or.inr ⟨function, Module.mem_functions.mp member, part, isPart, rfl⟩)

theorem Resolved.Decorates.fits {resolved : Resolved} {m : Module .parsed}
    (decorates : resolved.Decorates m) (sound : Lexical.Sound resolved.symbols.forgetScopes)
    {node : Node} (member : node ∈ resolved.module.nodes) {declaration : Declaration}
    (isDeclaration : node.part.declaration? = some declaration) :
    declaration.Fits resolved.symbols := by
  have fits := decorates.nodes node member
  obtain ⟨owner, part⟩ := node
  cases declaration with
  | record sym name =>
    have isRecord : resolved.globals.IsRecord sym (resolved.symbols.fields sym) := by
      cases part with
      | expr e => cases e <;> cases isDeclaration
      | block body => cases isDeclaration
      | stmt stmt =>
        cases stmt with
        | record ident fields span own =>
          cases isDeclaration
          obtain ⟨-, -, kind⟩ := fits
          rw [Symbols.fields, Symbol.fields, SymbolKind.forgetScope_eq_record.mp kind]
          exact kind
        | _ => cases isDeclaration
    have kind := SymbolKind.forgetScope_eq_record.mp isRecord
    have bound : sym < resolved.symbols.size :=
      Resolved.bound_of_role (by rw [isRecord]; rfl) (by decide : "type" ≠ "local")
    refine ⟨bound, fun field isField => decorates.symbols sym bound field ?_, ?_⟩
    · rw [Symbol.symbols, kind]
      exact List.mem_append_right _ isField
    · exact sound.fields_length (by rw [Symbols.get_forgetScopes]; exact isRecord)
  | _ => trivial

theorem Module.resolve_generable {m : Module .parsed} {names : NameTable} {resolved : Resolved}
    (top : ∀ stmt ∈ m.stmts, stmt.IsDeclaration) (ran : m.resolve names = .ok resolved) :
    resolved.Generable := by
  have decorates := m.resolve_decorated top ran
  obtain ⟨-, sound, -⟩ := m.resolve_sound top ran
  have typed := (m.resolve_typed top ran).2
  have known : ∀ function ∈ resolved.module.functions, ∀ part ∈ function.body.parts,
      part.Known resolved function.sym := by
    intro function member part isPart
    have inNodes := Module.mem_nodes member isPart
    exact ⟨decorates.nodes _ inNodes, decorates.nodeSymbols _ inNodes⟩
  refine ⟨fun function member => typed _ (Module.mem_functions.mp member), known, ?_, ?_⟩
  · intro declaration member
    rw [Module.declarations, Stmt.allDeclarations_eq none] at member
    obtain ⟨⟨owner, part⟩, inNodes, isDeclaration⟩ := List.mem_filterMap.mp member
    exact decorates.fits sound inNodes isDeclaration
  · intro function member part isPart layout missing
    exact decorates.uses (known function member part isPart) missing

/-! ### The outcome -/

namespace Layout.Numbers

variable {symbols : Symbols} {layout : Layout} {m : Module .typed}

theorem function_of_mem (numbers : layout.Numbers symbols m.declarations) {laid : LaidFunction}
    (member : laid ∈ layout.functions.toList) :
    ∃ function ∈ m.functions, laid.params = function.params ∧ laid.body = function.body := by
  have listed := List.mem_map_of_mem (f := fun function => (function.params, function.body)) member
  rw [numbers.functions] at listed
  obtain ⟨function, inModule, same⟩ := List.mem_map.mp listed
  exact ⟨function, inModule, (congrArg Prod.fst same).symm, (congrArg Prod.snd same).symm⟩

theorem mem_of_function (numbers : layout.Numbers symbols m.declarations) {function : FunctionDef}
    (member : function ∈ m.functions) :
    ∃ laid ∈ layout.functions.toList, laid.body = function.body := by
  have listed := List.mem_map_of_mem (f := fun function => (function.params, function.body)) member
  rw [Module.functions, ← numbers.functions] at listed
  obtain ⟨laid, inLayout, same⟩ := List.mem_map.mp listed
  exact ⟨laid, inLayout, congrArg Prod.snd same⟩

end Layout.Numbers

namespace Module

variable {m : Module .typed} {mainName? : Option String} {deleted : List Declaration}

theorem mainSymbol_refuses {error : LowerError} (failed : m.mainSymbol mainName? = .error error) :
    m.Refuses mainName? deleted error := by
  rw [mainSymbol] at failed
  split at failed
  case h_1 name params returns body span sym found =>
    split at failed
    case isTrue => cases failed
    case isFalse nonempty =>
      cases failed
      exact .entryPointParameters (List.mem_of_find?_eq_some found)
        (by simpa using List.find?_some found) (by simpa using nonempty)
  case h_2 other =>
    cases failed
    refine .missingEntryPoint fun stmt member name named same => ?_
    cases stmt with
    | func ident params returns body span sym =>
      have found : ∃ stmt, m.main? mainName? = some stmt := by
        apply Option.isSome_iff_exists.mp
        rw [main?, List.find?_isSome]
        refine ⟨_, member, ?_⟩
        cases named
        simpa using same
      obtain ⟨stmt, found⟩ := found
      cases stmt with
      | func ident params returns body span sym => exact other _ _ _ _ _ _ found
      | _ =>
        have named := List.find?_some found
        simp at named
    | _ => cases named

variable {resolved : Resolved}

theorem lower_outcome (generable : resolved.Generable) (mainName? : Option String)
    (kept : m.declarations ⊆ resolved.module.declarations)
    (split : ∀ declaration ∈ resolved.module.declarations,
      declaration ∈ m.declarations ∨ declaration ∈ deleted)
    {layout : Layout} (extended : Layout.empty.Extends layout m.declarations)
    (numbers : layout.Numbers resolved.symbols m.declarations) {laid : LaidFunction}
    (member : laid ∈ layout.functions.toList) :
    (∃ routine, laid.lower layout resolved.symbols = .ok routine ∧
      ∀ part ∈ laid.body.parts, ¬part.ComparesSequences) ∨
    ∃ error, laid.lower layout resolved.symbols = .error (.error error) ∧
      m.Refuses mainName? deleted error := by
  obtain ⟨function, inModule, params, body⟩ := numbers.function_of_mem member
  have inResolved : function ∈ resolved.module.functions :=
    mem_functions.mpr (kept (mem_functions.mp inModule))
  have known := generable.known function inResolved
  obtain ⟨_, returns, -, -, typed⟩ := generable.typed function inResolved
  rw [← body] at known typed
  rcases laid.lower_outcome typed known with made | ⟨halt, failed, many | stops⟩
  · exact Or.inl made
  · obtain ⟨many, rfl⟩ := many
    refine Or.inr ⟨_, failed, .tooMany fun within => ?_⟩
    exact Nat.not_le_of_lt many (params ▸ within.params function inModule)
  · rw [body] at stops
    cases stops with
    | @tooMany resource exceeded =>
      refine Or.inr ⟨_, failed, .tooMany fun within => ?_⟩
      have none : (Draft.start laid.name laid.params).used resource = 0 := by
        cases resource <;> rfl
      rw [none, Nat.zero_add] at exceeded
      exact Nat.not_le_of_lt exceeded (within.resources function inModule resource)
    | noEquality isPart compares =>
      exact Or.inr ⟨_, failed, .noEquality (mem_nodes inModule isPart) compares⟩
    | unresolved isPart missing =>
      obtain ⟨declaration, declared, uses, absent⟩ :=
        generable.uses function inResolved _ isPart layout missing
      rcases split declaration declared with here | gone
      · exact absurd (extended.numbered here) absent
      · exact Or.inr ⟨_, failed, .unresolved (mem_nodes inModule isPart) gone uses⟩

theorem mainSymbol_numbered {sym : SymbolId} (main : m.mainSymbol mainName? = .ok sym)
    {layout : Layout} (extended : Layout.empty.Extends layout m.declarations) :
    ∃ id, layout.functionIds[sym]? = some id := by
  obtain ⟨_, _, body, _, isStmt, -⟩ := mainSymbol_mem main
  have declared : .function ⟨sym, 0, body⟩ ∈ m.declarations := by
    refine Stmt.mem_allDeclarations isStmt ?_
    rw [Stmt.declarations]
    exact List.mem_cons_self
  have numbered : sym ∈ layout.functionIds := extended.numbered declared
  exact ⟨_, Std.HashMap.getElem?_eq_some_getElem numbered⟩

theorem WithinLimits.not_overflows (within : m.WithinLimits) :
    ¬Layout.empty.Overflows m.declarations := by
  have functions : Declaration.functionCount m.declarations ≤ Layout.maxIds := within.functions
  have records := within.records
  simp only [Layout.Overflows, Layout.empty, Array.size_empty, Nat.zero_add]
  omega

theorem generate_outcome (generable : resolved.Generable) (mainName? : Option String)
    (kept : m.declarations ⊆ resolved.module.declarations)
    (split : ∀ declaration ∈ resolved.module.declarations,
      declaration ∈ m.declarations ∨ declaration ∈ deleted) :
    (∃ program, m.generate resolved.symbols mainName? = .ok program ∧
      (∃ sym, m.mainSymbol mainName? = .ok sym) ∧
      ∀ function ∈ m.functions, ∀ part ∈ function.body.parts, ¬part.ComparesSequences) ∨
    ∃ error, m.generate resolved.symbols mainName? = .error (.error error) ∧
      m.Refuses mainName? deleted error := by
  cases main : m.mainSymbol mainName? with
  | error error =>
    exact Or.inr ⟨error, by rw [generate, main]; rfl, mainSymbol_refuses main⟩
  | ok sym =>
    have start : m.generate resolved.symbols mainName? = (do
        let layout ← Layout.addStmts resolved.symbols none .empty m.stmts
        let routines ← layout.functions.mapM (·.lower layout resolved.symbols)
        let id ← layout.functionId resolved.symbols sym
        return ⟨routines, layout.records, Program.entryOf id⟩) := by
      rw [generate, main]
      rfl
    have lays : Layout.Lays (Layout.addStmts resolved.symbols none .empty m.stmts) .empty
        m.declarations :=
      Layout.addStmts_lays m.stmts fun declaration member => generable.fits declaration (kept member)
    rcases lays with ⟨layout, laid, extended⟩ | ⟨what, failed, overflows⟩
    · have numbers := (Layout.numbers_empty resolved.symbols).addStmts m.stmts laid
      have lowered {function : LaidFunction} (member : function ∈ layout.functions.toList) :=
        lower_outcome generable mainName? kept split extended numbers member
      rw [laid] at start
      change _ = (layout.functions.mapM _ >>= _) at start
      rw [Array.mapM_eq_mapM_toList] at start
      rcases Stateful.mapM_outcome layout.functions.toList with
        ⟨routines, ran, each⟩ | ⟨function, member, halt, failed, ran⟩
      · rw [ran] at start
        obtain ⟨id, found⟩ := mainSymbol_numbered main extended
        change _ = (layout.functionId resolved.symbols sym >>= _) at start
        rw [Layout.functionId, found] at start
        refine Or.inl ⟨_, start, ⟨sym, rfl⟩, fun definition inModule part isPart => ?_⟩
        obtain ⟨function, member, body⟩ := numbers.mem_of_function inModule
        rcases lowered member with ⟨_, _, plain⟩ | ⟨error, failed, -⟩
        · exact plain part (body ▸ isPart)
        · obtain ⟨routine, made⟩ := each function member
          cases made.symm.trans failed
      · rcases lowered member with ⟨routine, made, -⟩ | ⟨error, refused, reason⟩
        · cases made.symm.trans failed
        · cases failed.symm.trans refused
          rw [ran] at start
          exact Or.inr ⟨error, start, reason⟩
    · rw [failed] at start
      exact Or.inr ⟨.tooMany what, start, .tooMany fun within => within.not_overflows overflows⟩

/-! ### Left-out statements -/

/-- What the statements declare that are left out. -/
def dropped (m : Module .typed) (indices : List Nat) : List Declaration :=
  ((m.stmts.zipIdx.filter fun (_, index) => indices.contains index).map Prod.fst).flatMap
    Stmt.declarations

theorem declarations_eq_flatMap (m : Module .typed) :
    m.declarations = m.stmts.flatMap Stmt.declarations := by
  obtain ⟨stmts⟩ := m
  rw [declarations]
  induction stmts with
  | nil => rfl
  | cons first rest ih => rw [Stmt.allDeclarations, ih, List.flatMap_cons]

theorem dropStmts_subset (m : Module .typed) (indices : List Nat) :
    (m.dropStmts indices).declarations ⊆ m.declarations := by
  intro declaration member
  rw [declarations_eq_flatMap] at member ⊢
  obtain ⟨stmt, inRest, declares⟩ := List.mem_flatMap.mp member
  obtain ⟨pair, inPairs, rfl⟩ := List.mem_map.mp inRest
  have inAll := (List.mem_filter.mp inPairs).1
  exact List.mem_flatMap.mpr ⟨pair.1, List.fst_mem_of_mem_zipIdx inAll, declares⟩

theorem mem_dropStmts_or_dropped (m : Module .typed) (indices : List Nat) (declaration : Declaration)
    (member : declaration ∈ m.declarations) :
    declaration ∈ (m.dropStmts indices).declarations ∨ declaration ∈ m.dropped indices := by
  rw [declarations_eq_flatMap] at member ⊢
  obtain ⟨stmt, inAll, declares⟩ := List.mem_flatMap.mp member
  obtain ⟨index, found⟩ := List.getElem?_of_mem inAll
  have inPairs : (stmt, index) ∈ m.stmts.zipIdx := List.mem_zipIdx_iff_getElem?.mpr found
  by_cases gone : indices.contains index
  · refine Or.inr (List.mem_flatMap.mpr ⟨stmt, List.mem_map.mpr ⟨(stmt, index), ?_, rfl⟩, declares⟩)
    exact List.mem_filter.mpr ⟨inPairs, gone⟩
  · refine Or.inl (List.mem_flatMap.mpr ⟨stmt, List.mem_map.mpr ⟨(stmt, index), ?_, rfl⟩, declares⟩)
    exact List.mem_filter.mpr ⟨inPairs, by simpa using gone⟩

theorem function_of_compares {m : Module .parsed} (top : ∀ stmt ∈ m.stmts, stmt.IsDeclaration)
    (erased : resolved.module.erase = m) {node : Node} (member : node ∈ resolved.module.nodes)
    (compares : node.part.ComparesSequences) :
    ∃ function ∈ resolved.module.functions, node.part ∈ function.body.parts := by
  rcases (Stmt.mem_allNodes_iff _).mp member with
    ⟨part, isPart, rfl⟩ | ⟨function, declared, part, isPart, rfl⟩
  · have plain : ∀ stmts : List (Stmt .typed), (∀ stmt ∈ stmts, stmt.erase.IsDeclaration) →
        ∀ part ∈ Stmt.allParts stmts, ¬part.ComparesSequences := by
      intro stmts declared
      induction stmts with
      | nil => simp [Stmt.allParts]
      | cons first rest ih =>
        rw [Stmt.allParts, List.forall_mem_append]
        refine ⟨?_, ih fun stmt later => declared stmt (List.mem_cons_of_mem _ later)⟩
        have isDeclaration := declared first List.mem_cons_self
        cases first with
        | func | record => simp [Stmt.parts, Part.ComparesSequences]
        | letIn | expr => simp [Stmt.erase, Stmt.IsDeclaration] at isDeclaration
    refine absurd compares (plain resolved.module.stmts (fun stmt inModule => top _ ?_) part isPart)
    rw [← erased, erase, Stmt.eraseAll_eq_map]
    exact List.mem_map_of_mem inModule
  · exact ⟨function, mem_functions.mpr declared, isPart⟩

theorem Refuses.of_whole {m : Module .typed} {error : LowerError}
    (refuses : m.Refuses mainName? [] error) :
    (∀ name, error ≠ .unresolved name) ∧ error ≠ .misplacedSelfAssignment := by
  constructor
  · rintro name rfl
    cases refuses with
    | unresolved _ deleted _ => cases deleted
  · rintro rfl
    cases refuses

theorem not_refuses {m : Module .typed} {error : LowerError}
    (distinct : (m.stmts.filterMap Stmt.functionName?).Nodup) (within : m.WithinLimits)
    (main : m.HasMain mainName?) (plain : ∀ node ∈ m.nodes, ¬node.part.ComparesSequences) :
    ¬m.Refuses mainName? [] error := by
  intro refuses
  obtain ⟨name, returns, body, span, sym, isMain, named⟩ := main
  cases refuses with
  | missingEntryPoint absent => exact absent _ isMain _ rfl named
  | entryPointParameters isOther named' takes =>
    have same := eq_of_functionName? distinct isMain isOther rfl (named'.trans named.symm)
    cases same
    exact takes rfl
  | noEquality member compares => exact plain _ member compares
  | tooMany exceeded => exact exceeded within
  | unresolved _ deleted _ => cases deleted

end Module

/-- Code generation for a resolved module never faults. It fails only for a reason in the module, and
never for a name without a number. A module within the limits has a program exactly if it has a main
function without parameters and compares no sequences. Without some of its statements, a reference
into these is the only other reason. -/
theorem generate_total {source : String} {table names : NameTable} {m : Module .parsed}
    {resolved : Resolved} (parsed : (parseModule source table).1 = .ok m)
    (ran : m.resolve names = .ok resolved) (mainName? : Option String) :
    (∀ halt, resolved.module.generate resolved.symbols mainName? = .error halt →
      ∃ error, halt = .error error ∧ resolved.module.Refuses mainName? [] error ∧
        (∀ name, error ≠ .unresolved name) ∧ error ≠ .misplacedSelfAssignment) ∧
    (resolved.module.WithinLimits →
      ((∃ program, resolved.module.generate resolved.symbols mainName? = .ok program) ↔
        resolved.module.HasMain mainName? ∧
          ∀ node ∈ resolved.module.nodes, ¬node.part.ComparesSequences)) ∧
    ∀ indices halt,
      (resolved.module.dropStmts indices).generate resolved.symbols mainName? = .error halt →
      ∃ error, halt = .error error ∧ (resolved.module.dropStmts indices).Refuses mainName?
        (resolved.module.dropped indices) error := by
  have top := parseModule_isDeclaration parsed
  have generable := m.resolve_generable top ran
  have erased := (m.resolve_decorated top ran).erase
  have distinct := m.resolve_distinct ran erased
  have whole := Module.generate_outcome generable mainName?
    (List.Subset.refl resolved.module.declarations) (fun _ member => Or.inl (b := _ ∈ []) member)
  refine ⟨?_, fun within => ⟨?_, ?_⟩, fun indices halt failed => ?_⟩
  · intro halt failed
    rcases whole with ⟨program, made, -⟩ | ⟨error, refused, reason⟩
    · cases made.symm.trans failed
    · cases failed.symm.trans refused
      exact ⟨error, rfl, reason, reason.of_whole⟩
  · rintro ⟨program, made⟩
    rcases whole with ⟨_, -, main, plain⟩ | ⟨error, refused, -⟩
    · refine ⟨(Module.exists_mainSymbol_iff distinct).mp main, fun node member compares => ?_⟩
      obtain ⟨function, inModule, isPart⟩ :=
        Module.function_of_compares top erased member compares
      exact plain function inModule _ isPart compares
    · cases made.symm.trans refused
  · rintro ⟨main, plain⟩
    rcases whole with ⟨program, made, -⟩ | ⟨error, -, reason⟩
    · exact ⟨program, made⟩
    · exact absurd reason (Module.not_refuses distinct within main plain)
  · rcases Module.generate_outcome generable mainName? (resolved.module.dropStmts_subset indices)
      (resolved.module.mem_dropStmts_or_dropped indices) with
      ⟨program, made, -⟩ | ⟨error, refused, reason⟩
    · cases made.symm.trans failed
    · cases failed.symm.trans refused
      exact ⟨error, rfl, reason⟩

theorem generate_total_negationText : ∃ m names resolved,
    (parseModule negationText .empty).1 = .ok m ∧ m.resolve names = .ok resolved ∧
      resolved.module.WithinLimits ∧
      (∃ program, resolved.module.generate resolved.symbols (some "Main") = .ok program) ∧
      resolved.module.HasMain (some "Main") ∧
      ∀ node ∈ resolved.module.nodes, ¬node.part.ComparesSequences := by
  obtain ⟨compilation, compiled, -, -, -, -, -, records, needs⟩ := compile_negationText
  obtain ⟨m, names, parsed, ran, made⟩ := compile_eq_ok.mp compiled
  have read : (parseModule negationText .empty).1 = .ok m := by rw [parsed]
  have mainName := mainName?_parseModule negationText
  rw [parsed] at mainName
  rw [mainName] at made
  have each : ∀ function ∈ compilation.resolved.module.functions, function.params ≤ 1 ∧
      ∀ resource, Part.costs function.body.parts resource ≤ 1 := by
    intro function member
    have listed := List.mem_map_of_mem (f := fun function : FunctionDef =>
      (function.params, [Resource.locals, .iterators, .labels].map
        (Part.costs function.body.parts))) member
    rw [needs] at listed
    simp only [List.map_cons, List.map_nil, List.mem_cons, Prod.mk.injEq, List.cons.injEq, and_true,
      List.not_mem_nil, or_false] at listed
    refine ⟨by omega, fun resource => ?_⟩
    cases resource <;> omega
  have within : compilation.resolved.module.WithinLimits := by
    refine ⟨?_, ?_, fun function member => ?_, fun function member resource => ?_⟩
    · have count := congrArg List.length needs
      simp only [List.length_map, List.length_cons, List.length_nil] at count
      rw [count]
      decide
    · rw [records]
      decide
    · exact Nat.le_trans (each function member).1 (by decide)
    · refine Nat.le_trans ((each function member).2 resource) ?_
      cases resource <;> decide
  obtain ⟨-, succeeds, -⟩ := generate_total read ran (some "Main")
  exact ⟨m, names, compilation.resolved, read, ran, within, ⟨_, made⟩,
    (succeeds within).mp ⟨_, made⟩⟩

end LetChain
