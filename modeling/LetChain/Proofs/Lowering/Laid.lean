import LetChain.Proofs.Lowering.Numbered
import LetChain.Proofs.Lowering.Progress

/-! Laying out a module comes to an end: everything that the module declares gets a number, unless
there are more functions or records than numbers. -/

namespace LetChain

namespace Declaration

def record? : Declaration → Option SymbolId
  | .record sym _ => some sym
  | _ => none

def Fits (symbols : Symbols) : Declaration → Prop
  | .record sym _ =>
    sym < symbols.size ∧ (∀ field ∈ symbols.fields sym, field < symbols.size) ∧
      (symbols.fields sym).length ≤ 65536
  | _ => True

def functionCount (declared : List Declaration) : Nat := (declared.filterMap function?).length

def recordCount (declared : List Declaration) : Nat := (declared.filterMap record?).length

section Counts

variable (declared declared' : List Declaration)

@[simp] theorem functionCount_append :
    functionCount (declared ++ declared') = functionCount declared + functionCount declared' := by
  simp [functionCount]

@[simp] theorem recordCount_append :
    recordCount (declared ++ declared') = recordCount declared + recordCount declared' := by
  simp [recordCount]

end Counts

end Declaration

namespace Layout

open Declaration

/-- A layout that holds what another one holds, and all that is declared. -/
structure Extends (layout layout' : Layout) (declared : List Declaration) : Prop where
  functions : layout'.functions.size = layout.functions.size + functionCount declared
  records : layout'.records.size = layout.records.size + recordCount declared
  room : layout.functions.size ≤ maxIds → layout'.functions.size ≤ maxIds
  recordRoom : layout.records.size ≤ maxIds → layout'.records.size ≤ maxIds
  functionIds : ∀ sym, sym ∈ layout.functionIds ∨
    (∃ definition, .function definition ∈ declared ∧ definition.sym = sym) →
      sym ∈ layout'.functionIds
  recordIds : ∀ sym, sym ∈ layout.recordIds ∨ (∃ name, .record sym name ∈ declared) →
    sym ∈ layout'.recordIds

/-- More is declared than there are numbers for. -/
def Overflows (layout : Layout) (declared : List Declaration) : Prop :=
  maxIds < layout.functions.size + functionCount declared ∨
    maxIds < layout.records.size + recordCount declared

theorem Extends.trans {layout₁ layout₂ layout₃ : Layout} {declared declared' : List Declaration}
    (first : layout₁.Extends layout₂ declared) (second : layout₂.Extends layout₃ declared') :
    layout₁.Extends layout₃ (declared ++ declared') := by
  refine ⟨?_, ?_, fun few => second.room (first.room few),
    fun few => second.recordRoom (first.recordRoom few), fun sym known => ?_, fun sym known => ?_⟩
  · rw [second.functions, first.functions, functionCount_append, Nat.add_assoc]
  · rw [second.records, first.records, recordCount_append, Nat.add_assoc]
  · apply second.functionIds
    rcases known with old | ⟨definition, member, isSym⟩
    · exact Or.inl (first.functionIds sym (Or.inl old))
    · rcases List.mem_append.mp member with inFirst | inSecond
      · exact Or.inl (first.functionIds sym (Or.inr ⟨definition, inFirst, isSym⟩))
      · exact Or.inr ⟨definition, inSecond, isSym⟩
  · apply second.recordIds
    rcases known with old | ⟨name, member⟩
    · exact Or.inl (first.recordIds sym (Or.inl old))
    · rcases List.mem_append.mp member with inFirst | inSecond
      · exact Or.inl (first.recordIds sym (Or.inr ⟨name, inFirst⟩))
      · exact Or.inr ⟨name, inSecond⟩

/-- Numbering what is declared extends the layout, or finds that there is too much. -/
def Lays (act : Lay Layout) (layout : Layout) (declared : List Declaration) : Prop :=
  (∃ layout', act = .ok layout' ∧ layout.Extends layout' declared) ∨
    ∃ what, act = .error (.error (.tooMany what)) ∧ layout.Overflows declared

namespace Lays

variable {symbols : Symbols} {layout : Layout} {declared declared' : List Declaration}

theorem nil : Lays (.ok layout) layout [] := by
  refine Or.inl ⟨layout, rfl, rfl, rfl, id, id, fun sym known => ?_, fun sym known => ?_⟩
  · simpa using known
  · simpa using known

theorem bind {act : Lay Layout} {rest : Layout → Lay Layout} (first : Lays act layout declared)
    (next : ∀ layout', Lays (rest layout') layout' declared') :
    Lays (act >>= rest) layout (declared ++ declared') := by
  rcases first with ⟨layout₁, ran, extended⟩ | ⟨what, failed, overflows⟩
  · rcases next layout₁ with ⟨layout₂, ran', extended'⟩ | ⟨what, failed, overflows⟩
    · exact Or.inl ⟨layout₂, by rw [ran]; exact ran', extended.trans extended'⟩
    · refine Or.inr ⟨what, by rw [ran]; exact failed, ?_⟩
      have functions := extended.functions
      have records := extended.records
      simp only [Overflows, functionCount_append, recordCount_append] at overflows ⊢
      omega
  · refine Or.inr ⟨what, by rw [failed]; rfl, ?_⟩
    simp only [Overflows, functionCount_append, recordCount_append] at overflows ⊢
    omega

theorem localVar (sym : SymbolId) : Lays (.ok layout) layout [.localVar sym] := by
  refine Or.inl ⟨layout, rfl, rfl, rfl, id, id, fun sym known => ?_, fun sym known => ?_⟩
  · simpa using known
  · simpa using known

theorem function {outer : Option String} {name : String} {params : Nat} {body : Block .typed}
    {sym : SymbolId} {rest : Layout × String → Lay Layout}
    (next : ∀ layout' name, Lays (rest (layout', name)) layout' declared) :
    Lays (layout.addFunction outer name params body sym >>= rest) layout
      (.function ⟨sym, params, body⟩ :: declared) := by
  rw [addFunction]
  split
  case isTrue few =>
    have added : Lays (.ok _) layout [.function ⟨sym, params, body⟩] :=
      Or.inl ⟨⟨layout.functions.push ⟨freeName layout.taken (qualified outer name), params, body⟩,
        layout.functionIds.insert sym layout.functions.size, layout.records, layout.recordIds,
        layout.taken.insert (freeName layout.taken (qualified outer name))⟩, rfl,
        by simp [functionCount, function?], by simp [recordCount, record?], fun _ => by simpa using few, id,
        fun other known => by
          rw [Std.HashMap.mem_insert, beq_iff_eq]
          rcases known with old | ⟨definition, member, isSym⟩
          · exact Or.inr old
          · cases List.mem_singleton.mp member
            exact Or.inl isSym,
        fun other known => by simpa using known⟩
    exact added.bind fun layout' => next layout' _
  case isFalse full =>
    refine Or.inr ⟨"functions", rfl, Or.inl ?_⟩
    have counted : functionCount (.function ⟨sym, params, body⟩ :: declared) =
      functionCount declared + 1 := by simp [functionCount, function?]
    omega

theorem names_eq : ∀ {ids : List SymbolId}, (∀ id ∈ ids, id < symbols.size) →
    names symbols ids = .ok (ids.map fun id => (symbols.get id).name)
  | [], _ => rfl
  | id :: ids, bound => by
    have rest := names_eq fun id member => bound id (List.mem_cons_of_mem _ member)
    rw [names] at rest ⊢
    rw [List.mapM_cons, rest, symbol_eq (bound id List.mem_cons_self)]
    rfl

theorem record {name : String} {sym : SymbolId} (fits : (Declaration.record sym name).Fits symbols) :
    Lays (addRecord symbols layout name sym) layout [.record sym name] := by
  obtain ⟨bound, fieldBound, few⟩ := fits
  rw [addRecord, symbol_eq bound]
  change Lays (names symbols (symbols.fields sym) >>= _) _ _
  rw [names_eq fieldBound]
  change Lays (if _ > 65536 then _ else _) _ _
  rw [if_neg (by simpa using few)]
  split
  case isTrue few =>
    refine Or.inl ⟨_, rfl, by simp [functionCount, function?], by simp [recordCount, record?], id,
      fun _ => by simpa using few, fun other known => by simpa using known, fun other known => ?_⟩
    rw [Std.HashMap.mem_insert, beq_iff_eq]
    rcases known with old | ⟨otherName, member⟩
    · exact Or.inr old
    · cases List.mem_singleton.mp member
      exact Or.inl rfl
  case isFalse full =>
    refine Or.inr ⟨"records", rfl, Or.inr ?_⟩
    have counted : recordCount [.record sym name] = 1 := rfl
    omega

end Lays

theorem addNest_lays {symbols : Symbols} {nest : Nest} (owner : Option SymbolId)
    {outer : Option String} {layout : Layout}
    (fits : ∀ declaration ∈ Node.declared (nest.nodes owner), declaration.Fits symbols) :
    Lays (addNest symbols outer layout nest) layout (Node.declared (nest.nodes owner)) := by
  induction nest generalizing owner outer layout with
  | nil => exact .nil
  | localVar part sym declares rest ih =>
    simp only [Nest.nodes, Node.declared_cons, declares, Option.toList_some, List.cons_append,
      List.nil_append, List.forall_mem_cons] at fits ⊢
    exact (Lays.localVar sym).bind fun _ => ih owner fits.2
  | record name fields span sym rest ih =>
    simp only [Nest.nodes, Node.declared_cons, Part.declaration?, Option.toList_some,
      List.cons_append, List.nil_append, List.forall_mem_cons] at fits ⊢
    exact (Lays.record fits.1).bind fun _ => ih owner fits.2
  | function name params returns body span sym inner rest ihInner ihRest =>
    simp only [Nest.nodes, Node.declared_cons, Part.declaration?, Option.toList_some,
      List.cons_append, List.nil_append, List.forall_mem_cons, Node.declared_append,
      List.forall_mem_append] at fits ⊢
    exact .function fun _ _ => (ihInner (some sym) fits.2.1).bind fun _ => ihRest owner fits.2.2

variable {symbols : Symbols} {outer : Option String} {layout : Layout}

theorem addStmts_lays (stmts : List (Stmt .typed))
    (fits : ∀ declaration ∈ Stmt.allDeclarations stmts, declaration.Fits symbols) :
    Lays (addStmts symbols outer layout stmts) layout (Stmt.allDeclarations stmts) := by
  rw [Stmt.allDeclarations_nest stmts none] at fits ⊢
  rw [addStmts_eq]
  exact addNest_lays none fits

end Layout

end LetChain
