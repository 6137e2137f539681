import LetChain.Proofs.Lowering.Nested
import LetChain.Proofs.Lowering.Written

/-! The numbers that a layout gives lead back to what the module declares. -/

namespace LetChain

namespace Layout

/-- The layout of a record with the given name: its operands fill its fields in order. -/
def recordOf (symbols : Symbols) (name : String) (sym : SymbolId) : RecordLayout :=
  ⟨name, (symbols.fields sym).map fun id => (symbols.get id).name,
    List.range (symbols.fields sym).length⟩

/-- A layout holds the functions of the declarations in order, and its numbers lead to those that
they were given to. -/
structure Numbers (symbols : Symbols) (layout : Layout) (declared : List Declaration) : Prop where
  functions : layout.functions.toList.map (fun function => (function.params, function.body)) =
    (declared.filterMap Declaration.function?).map fun function => (function.params, function.body)
  functionIds : ∀ (sym : SymbolId) (index : Nat), layout.functionIds[sym]? = some index →
    ∃ function, (declared.filterMap Declaration.function?)[index]? = some function ∧
      function.sym = sym
  recordIds : ∀ (sym : SymbolId) (index : Nat), layout.recordIds[sym]? = some index →
    ∃ name, Declaration.record sym name ∈ declared ∧
      layout.records[index]? = some (recordOf symbols name sym)
  orders : ∀ record ∈ layout.records, record.order = List.range record.fields.length

theorem numbers_empty (symbols : Symbols) : empty.Numbers symbols [] :=
  ⟨rfl, by simp [empty], by simp [empty], by simp [empty]⟩

theorem names_eq_ok {symbols : Symbols} : ∀ {ids : List SymbolId} {found : List String},
    names symbols ids = .ok found → found = ids.map fun id => (symbols.get id).name
  | [], found, ran => by
    cases ran
    rfl
  | id :: ids, found, ran => by
    rw [names, List.mapM_cons] at ran
    obtain ⟨name, looked, ran⟩ := Stateful.except_bind_eq_ok.mp ran
    obtain ⟨rest, looks, ran⟩ := Stateful.except_bind_eq_ok.mp ran
    cases ran
    have first : (symbols.get id).name = name := by
      cases present : symbol symbols id with
      | error _ => rw [present] at looked; cases looked
      | ok found =>
        rw [present] at looked
        rw [Writes.symbol_eq_ok present]
        exact Except.ok.inj looked
    rw [List.map_cons, first, names_eq_ok looks]

variable {symbols : Symbols} {layout layout' : Layout} {declared : List Declaration}

theorem addFunction_eq_ok {outer : Option String} {name name' : String} {params : Nat}
    {body : Block .typed} {sym : SymbolId}
    (ran : layout.addFunction outer name params body sym = .ok (layout', name')) :
    name' = freeName layout.taken (qualified outer name) ∧
      layout' = { layout with
        functions := layout.functions.push ⟨name', params, body⟩
        functionIds := layout.functionIds.insert sym layout.functions.size
        taken := layout.taken.insert name' } := by
  rw [Layout.addFunction] at ran
  split at ran
  case isFalse => cases ran
  case isTrue =>
    cases ran
    exact ⟨rfl, rfl⟩

theorem addRecord_eq_ok {name : String} {sym : SymbolId}
    (ran : addRecord symbols layout name sym = .ok layout') :
    layout' = { layout with
      records := layout.records.push (recordOf symbols name sym)
      recordIds := layout.recordIds.insert sym layout.records.size } := by
  obtain ⟨record, looked, ran⟩ := Stateful.except_bind_eq_ok.mp ran
  obtain ⟨fields, named, ran⟩ := Stateful.except_bind_eq_ok.mp ran
  have same := Writes.symbol_eq_ok looked
  subst same
  have fieldsEq := names_eq_ok named
  subst fieldsEq
  dsimp only at ran
  split at ran
  case isTrue => cases ran
  case isFalse =>
    split at ran
    case isFalse => cases ran
    case isTrue =>
      cases ran
      simp [recordOf, Symbols.fields]

theorem Numbers.localVar (numbers : layout.Numbers symbols declared) (sym : SymbolId) :
    layout.Numbers symbols (declared ++ [.localVar sym]) := by
  refine ⟨?_, fun other index found => ?_, fun other index found => ?_, numbers.orders⟩
  · simpa [List.filterMap_cons, Declaration.function?] using numbers.functions
  · simpa [List.filterMap_cons, Declaration.function?] using
      numbers.functionIds other index found
  · obtain ⟨name, member, present⟩ := numbers.recordIds other index found
    exact ⟨name, List.mem_append_left _ member, present⟩

theorem Numbers.addFunction {outer : Option String} {name name' : String} {params : Nat}
    {body : Block .typed} {sym : SymbolId} (numbers : layout.Numbers symbols declared)
    (ran : layout.addFunction outer name params body sym = .ok (layout', name')) :
    layout'.Numbers symbols (declared ++ [.function ⟨sym, params, body⟩]) := by
  obtain ⟨rfl, rfl⟩ := addFunction_eq_ok ran
  have count : layout.functions.size = (declared.filterMap Declaration.function?).length := by
    simpa using congrArg List.length numbers.functions
  refine ⟨?_, fun other index found => ?_, fun other index found => ?_, numbers.orders⟩
  · simp [numbers.functions, Declaration.function?]
  · simp only [List.filterMap_append, List.filterMap_cons, Declaration.function?,
      List.filterMap_nil]
    simp only [Std.HashMap.getElem?_insert] at found
    split at found
    case isTrue same =>
      cases found
      exact ⟨⟨sym, params, body⟩, by simp [count], eq_of_beq same⟩
    case isFalse =>
      obtain ⟨function, present, isSym⟩ := numbers.functionIds other index found
      have bound := (List.getElem?_eq_some_iff.mp present).1
      exact ⟨function, by rwa [List.getElem?_append_left bound], isSym⟩
  · obtain ⟨recordName, member, present⟩ := numbers.recordIds other index found
    exact ⟨recordName, List.mem_append_left _ member, present⟩

theorem Numbers.addRecord {name : String} {sym : SymbolId}
    (numbers : layout.Numbers symbols declared)
    (ran : addRecord symbols layout name sym = .ok layout') :
    layout'.Numbers symbols (declared ++ [.record sym name]) := by
  obtain rfl := addRecord_eq_ok ran
  refine ⟨?_, fun other index found => ?_, fun other index found => ?_, fun record member => ?_⟩
  · simpa [List.filterMap_cons, Declaration.function?] using numbers.functions
  · simpa [List.filterMap_cons, Declaration.function?] using
      numbers.functionIds other index found
  · simp only [Std.HashMap.getElem?_insert] at found
    split at found
    case isTrue same =>
      cases found
      obtain rfl := eq_of_beq same
      exact ⟨name, by simp, by simp⟩
    case isFalse =>
      obtain ⟨recordName, member, present⟩ := numbers.recordIds other index found
      have bound := (Array.getElem?_eq_some_iff.mp present).1
      refine ⟨recordName, List.mem_append_left _ member, ?_⟩
      simpa [Array.getElem?_push, Nat.ne_of_lt bound] using present
  · rcases Array.mem_push.mp member with older | rfl
    · exact numbers.orders record older
    · simp [recordOf]

theorem Numbers.addNest {nest : Nest} (owner : Option SymbolId) {outer : Option String}
    (numbers : layout.Numbers symbols declared)
    (ran : addNest symbols outer layout nest = .ok layout') :
    layout'.Numbers symbols (declared ++ Node.declared (nest.nodes owner)) := by
  induction nest generalizing owner outer layout layout' declared with
  | nil =>
    cases ran
    simpa [Nest.nodes] using numbers
  | localVar part sym declares rest ih =>
    simpa [Nest.nodes, declares] using ih owner (numbers.localVar sym) ran
  | record name fields span sym rest ih =>
    obtain ⟨_, added, ran⟩ := Stateful.except_bind_eq_ok.mp ran
    simpa [Nest.nodes, Part.declaration?] using ih owner (numbers.addRecord added) ran
  | function name params returns body span sym inner rest ihInner ihRest =>
    obtain ⟨_, added, ran⟩ := Stateful.except_bind_eq_ok.mp ran
    obtain ⟨_, ranInner, ranRest⟩ := Stateful.except_bind_eq_ok.mp ran
    have inside := ihInner (some sym) (numbers.addFunction added) ranInner
    simpa [Nest.nodes, Part.declaration?] using ihRest owner inside ranRest

theorem Numbers.addStmts (numbers : layout.Numbers symbols declared) (stmts : List (Stmt .typed))
    {outer : Option String} (ran : addStmts symbols outer layout stmts = .ok layout') :
    layout'.Numbers symbols (declared ++ Stmt.allDeclarations stmts) := by
  rw [addStmts_eq] at ran
  rw [Stmt.allDeclarations_nest stmts none]
  exact numbers.addNest none ran

end Layout

end LetChain
