import LetChain.Proofs.Lowering.Laid
import LetChain.Proofs.Lowering.Named
import LetChain.Proofs.Lowering.Parts

/-! The names of nested functions. A function is called after the function around it, and a number is
added only if that name is already in use; so a function of the top level keeps its own name. -/

namespace LetChain

/-! ### Functions with their surroundings -/

structure Heading where
  owner : Option SymbolId
  name : String
  function : FunctionDef

def Node.heading? : Node → Option Heading
  | ⟨owner, .stmt (.func name params _ body _ sym)⟩ =>
    some ⟨owner, name.text, ⟨sym, params.length, body⟩⟩
  | _ => none

def Node.headings (nodes : List Node) : List Heading := nodes.filterMap Node.heading?

@[simp] theorem Node.headings_append (first rest : List Node) :
    Node.headings (first ++ rest) = Node.headings first ++ Node.headings rest :=
  List.filterMap_append ..

@[simp] theorem Node.headings_cons (node : Node) (rest : List Node) :
    Node.headings (node :: rest) = node.heading?.toList ++ Node.headings rest := by
  cases found : node.heading? <;> simp [Node.headings, found]

theorem Node.heading?_localVar {owner : Option SymbolId} {part : Part} {sym : SymbolId}
    (declares : part.declaration? = some (.localVar sym)) : Node.heading? ⟨owner, part⟩ = none := by
  cases part with
  | stmt stmt => cases stmt <;> first | rfl | cases declares
  | _ => rfl

theorem Node.headings_declaring (nodes : List Node) :
    Node.headings (Node.declaring nodes) = Node.headings nodes := by
  rw [headings, declaring, List.filterMap_filter, headings]
  congr 1
  funext node
  obtain ⟨owner, part⟩ := node
  cases part with
  | stmt stmt => cases stmt <;> rfl
  | expr e => cases e <;> rfl
  | block body => rfl

/-- The functions of a module in order, each before those in its body. -/
def Module.headings (m : Module .typed) : List Heading := Node.headings m.nodes

theorem Node.map_function_headings (nodes : List Node) :
    (Node.headings nodes).map Heading.function =
      (Node.declared nodes).filterMap Declaration.function? := by
  rw [Node.headings, Node.declared, List.map_filterMap, List.filterMap_filterMap]
  congr 1
  funext node
  obtain ⟨owner, part⟩ := node
  cases part with
  | stmt stmt => cases stmt <;> rfl
  | expr e => cases e <;> rfl
  | block body => rfl

theorem Module.map_function_headings (m : Module .typed) :
    m.headings.map Heading.function = m.functions := by
  rw [headings, Node.map_function_headings, functions, declarations, nodes,
    Stmt.allDeclarations_eq none]

/-! ### Names that follow their surroundings -/

namespace Layout

theorem Frees.congr {taken taken' : Std.HashSet String} {base name : String}
    (same : ∀ name, name ∈ taken ↔ name ∈ taken') (frees : Frees taken base name) :
    Frees taken' base name := by
  cases frees with
  | plain free => exact .plain (mt (same _).mpr free)
  | numbered busy least free before =>
    exact .numbered ((same _).mp busy) least (mt (same _).mpr free)
      fun i low high => (same _).mp (before i low high)

inductive Called (headings : List Heading) (names : List String) :
    Option SymbolId → Option String → Prop
  | nowhere : Called headings names none none
  | within {index : Nat} {heading : Heading} {name : String} : headings[index]? = some heading → names[index]? = some name →
      Called headings names (some heading.function.sym) (some name)

/-- What is in use before the function of the given number gets its name. -/
def usedBefore (names : List String) (index : Nat) : Std.HashSet String :=
  .ofList (Program.entryName :: names.take index)

theorem mem_usedBefore {names : List String} {index : Nat} {name : String} :
    name ∈ usedBefore names index ↔ name = Program.entryName ∨ name ∈ names.take index := by
  rw [usedBefore, Std.HashSet.mem_ofList, List.contains_iff_mem, List.mem_cons]

structure Qualified (headings : List Heading) (names : List String) : Prop where
  length : names.length = headings.length
  named : ∀ (index : Nat) (heading : Heading), headings[index]? = some heading →
    ∃ outer name, Called (headings.take index) (names.take index) heading.owner outer ∧
      names[index]? = some name ∧
      Frees (usedBefore names index) (qualified outer heading.name) name

section Lists

variable {headings more : List Heading} {names others : List String} {owner : Option SymbolId}
  {outer : Option String}

theorem Called.append (called : Called headings names owner outer) :
    Called (headings ++ more) (names ++ others) owner outer := by
  cases called with
  | nowhere => exact .nowhere
  | within isHeading isName =>
    rw [← List.getElem?_append_left (List.getElem?_eq_some_iff.mp isHeading).1] at isHeading
    rw [← List.getElem?_append_left (List.getElem?_eq_some_iff.mp isName).1] at isName
    exact .within isHeading isName

theorem Qualified.nil : Qualified [] [] := ⟨rfl, nofun⟩

theorem Qualified.snoc (qualified : Qualified headings names) {heading : Heading} {name : String}
    (called : Called headings names heading.owner outer)
    (frees : Frees (.ofList (Program.entryName :: names)) (Layout.qualified outer heading.name) name) :
    Qualified (headings ++ [heading]) (names ++ [name]) := by
  refine ⟨by simp [qualified.length], fun index found isHeading => ?_⟩
  by_cases earlier : index < headings.length
  · have inNames : index < names.length := qualified.length ▸ earlier
    rw [List.getElem?_append_left earlier] at isHeading
    have named := qualified.named index found isHeading
    rwa [List.take_append_of_le_length (Nat.le_of_lt earlier), usedBefore,
      List.take_append_of_le_length (Nat.le_of_lt inNames), List.getElem?_append_left inNames]
  · have bound := (List.getElem?_eq_some_iff.mp isHeading).1
    rw [List.length_append, List.length_singleton] at bound
    obtain rfl : index = headings.length := by omega
    obtain rfl : heading = found := by simpa using isHeading
    refine ⟨outer, name, by simpa [← qualified.length] using called, by simp [← qualified.length], ?_⟩
    rwa [← qualified.length, usedBefore, List.take_left]

theorem Qualified.distinct (qualified : Qualified headings names) :
    (Program.entryName :: names).Nodup := by
  rw [List.nodup_cons, List.nodup_iff_getElem?_ne_getElem?]
  have free {index : Nat} {name : String} (isName : names[index]? = some name) :
      name ∉ usedBefore names index := by
    have bound := (List.getElem?_eq_some_iff.mp isName).1
    obtain ⟨_, _, -, isName', frees⟩ :=
      qualified.named index _ (List.getElem?_eq_getElem (qualified.length ▸ bound))
    cases isName.symm.trans isName'
    exact frees.notMem
  constructor
  · intro member
    obtain ⟨index, isName⟩ := List.getElem?_of_mem member
    exact free isName (mem_usedBefore.mpr (.inl rfl))
  · intro first second before bound same
    have isName := List.getElem?_eq_getElem bound
    refine free isName (mem_usedBefore.mpr (.inr (List.mem_of_getElem? (i := first) ?_)))
    rw [List.getElem?_take_of_lt before, same, isName]

theorem Qualified.root_eq (qualified : Qualified headings names) {index : Nat} {name : String}
    (isName : names[index]? = some name) :
    ∃ top ≤ index, ∃ heading, headings[top]? = some heading ∧ heading.owner = none ∧
      root name = root heading.name := by
  induction index using Nat.strong_induction_on generalizing name with
  | _ index ih =>
    have bound := (List.getElem?_eq_some_iff.mp isName).1
    rw [qualified.length] at bound
    have isHeading := List.getElem?_eq_getElem bound
    obtain ⟨outer, _, called, isName', frees⟩ := qualified.named index _ isHeading
    cases isName.symm.trans isName'
    generalize isOwner : headings[index].owner = owner at called
    cases called with
    | nowhere => exact ⟨index, Nat.le_refl _, _, isHeading, isOwner, frees.root_eq⟩
    | @within earlier heading outer isEarlier isOuter =>
      have before : earlier < index := by
        have inTake := (List.getElem?_eq_some_iff.mp isOuter).1
        rw [List.length_take] at inTake
        omega
      rw [List.getElem?_take_of_lt before] at isOuter
      obtain ⟨top, least, found, isTop, free, same⟩ := ih earlier before isOuter
      refine ⟨top, by omega, found, isTop, free, ?_⟩
      rw [frees.root_eq, root_qualified, same]

def TopsDiffer (headings : List Heading) : Prop :=
  headings.Pairwise fun first second =>
    first.owner = none → second.owner = none → first.name ≠ second.name

theorem Qualified.top_name (qualified : Qualified headings names) (differ : TopsDiffer headings)
    (areNames : ∀ heading ∈ headings, Text.isName heading.name = true) {index : Nat}
    {heading : Heading} (isHeading : headings[index]? = some heading) (isTop : heading.owner = none) :
    names[index]? = some
      (if heading.name = Program.entryName then suffixed Program.entryName 2 else heading.name) := by
  obtain ⟨outer, name, called, isName, frees⟩ := qualified.named index heading isHeading
  rw [isTop] at called
  cases called
  -- A name in use that begins as this one does would be that of another function called so.
  have unused {used : String} (same : root used = root heading.name)
      (member : used ∈ usedBefore names index) : used = Program.entryName := by
    rcases mem_usedBefore.mp member with isEntry | earlier
    · exact isEntry
    · obtain ⟨before, bound, isUsed⟩ := List.mem_take_iff_getElem.mp earlier
      obtain ⟨top, least, found, isFound, free, sameRoot⟩ :=
        qualified.root_eq (List.getElem?_eq_some_iff.mpr ⟨by omega, isUsed⟩)
      obtain ⟨inHeadings, isFound⟩ := List.getElem?_eq_some_iff.mp isFound
      obtain ⟨isBound, isHeading⟩ := List.getElem?_eq_some_iff.mp isHeading
      have different := List.pairwise_iff_getElem.mp differ top index inHeadings isBound (by omega)
      rw [isFound, isHeading] at different
      refine absurd (String.toList_injective ?_) (different free isTop)
      rw [← root_of_isName (areNames found (isFound ▸ List.getElem_mem _)), ← sameRoot, same,
        root_of_isName (areNames heading (isHeading ▸ List.getElem_mem _))]
  rw [isName]
  split
  case isTrue isEntry =>
    rw [isEntry] at frees unused
    cases frees with
    | plain free => exact absurd (mem_usedBefore.mpr (.inl rfl)) free
    | @numbered k _ least free before =>
      -- The second is free, since it is in use only if it is the entry's name.
      by_cases more : 2 < k
      · have wrong := unused (root_suffixed _ 2) (before 2 (Nat.le_refl _) more)
        exact absurd wrong (by decide)
      · rw [show k = 2 by omega]
        rfl
  case isFalse notEntry =>
    cases frees with
    | plain => rfl
    | numbered busy => exact absurd (unused rfl busy) notEntry

end Lists

/-! ### The walk -/

/-- The layout has given the functions so far their names, and has no others in use. -/
structure Qualifies (layout : Layout) (headings : List Heading) : Prop where
  taken : ∀ name, name ∈ layout.taken ↔ name = Program.entryName ∨ name ∈ layout.functionNames
  qualified : Qualified headings layout.functionNames

/-- A walk has come from one layout to another that has names for more functions. -/
structure Names (layout : Layout) (headings : List Heading) (layout' : Layout)
    (headings' : List Heading) : Prop where
  qualifies : layout'.Qualifies headings'
  called : ∀ owner outer, Called headings layout.functionNames owner outer →
    Called headings' layout'.functionNames owner outer

section Walk

variable {symbols : Symbols}

theorem Qualifies.empty : empty.Qualifies [] := by
  refine ⟨fun name => ?_, .nil⟩
  rw [Layout.empty, functionNames, Std.HashSet.mem_insert, beq_iff_eq]
  simp [eq_comm]

theorem Qualifies.refl {layout : Layout} {headings : List Heading} (start : layout.Qualifies headings) :
    layout.Names headings layout headings :=
  ⟨start, fun _ _ => id⟩

theorem Names.trans {layout₁ layout₂ layout₃ : Layout} {headings₁ headings₂ headings₃ : List Heading}
    (first : layout₁.Names headings₁ layout₂ headings₂)
    (second : layout₂.Names headings₂ layout₃ headings₃) :
    layout₁.Names headings₁ layout₃ headings₃ :=
  ⟨second.qualifies, fun owner outer called => second.called _ _ (first.called owner outer called)⟩

theorem Qualifies.addFunction {layout layout' : Layout} {headings : List Heading}
    {owner : Option SymbolId} {outer : Option String} {name made : String} {params : Nat}
    {body : Block .typed} {sym : SymbolId} (start : layout.Qualifies headings)
    (inside : Called headings layout.functionNames owner outer)
    (ran : layout.addFunction outer name params body sym = .ok (layout', made)) :
    layout.Names headings layout' (headings ++ [⟨owner, name, ⟨sym, params, body⟩⟩]) ∧
      Called (headings ++ [⟨owner, name, ⟨sym, params, body⟩⟩]) layout'.functionNames (some sym)
        (some made) := by
  obtain ⟨isMade, rfl⟩ := addFunction_eq_ok ran
  have names : functionNames { layout with
      functions := layout.functions.push ⟨made, params, body⟩
      functionIds := layout.functionIds.insert sym layout.functions.size
      taken := layout.taken.insert made } = layout.functionNames ++ [made] := by
    simp [functionNames]
  have frees : Frees (.ofList (Program.entryName :: layout.functionNames))
      (Layout.qualified outer name) made := by
    rw [isMade]
    refine (freeName_frees layout.taken _).congr fun other => ?_
    rw [start.taken, Std.HashSet.mem_ofList, List.contains_iff_mem, List.mem_cons]
  refine ⟨⟨⟨fun other => ?_, ?_⟩, fun owner outer called => ?_⟩, ?_⟩
  · rw [names, Std.HashSet.mem_insert, start.taken, List.mem_append, List.mem_singleton, beq_iff_eq]
    grind
  · rw [names]
    exact start.qualified.snoc inside frees
  · rw [names]
    exact called.append
  · rw [names]
    have isLast : (headings ++ [⟨owner, name, ⟨sym, params, body⟩⟩])[headings.length]? =
      some ⟨owner, name, ⟨sym, params, body⟩⟩ := by simp
    exact .within isLast (by simp [← start.qualified.length])

theorem Qualifies.addRecord {layout layout' : Layout} {headings : List Heading} {name : String}
    {sym : SymbolId} (start : layout.Qualifies headings)
    (ran : addRecord symbols layout name sym = .ok layout') :
    layout.Names headings layout' headings := by
  obtain rfl := addRecord_eq_ok ran
  exact ⟨⟨start.taken, start.qualified⟩, fun _ _ => id⟩

theorem addNest_names {nest : Nest} (owner : Option SymbolId) {outer : Option String}
    {layout layout' : Layout} {headings : List Heading} (start : layout.Qualifies headings)
    (inside : Called headings layout.functionNames owner outer)
    (ran : addNest symbols outer layout nest = .ok layout') :
    layout.Names headings layout' (headings ++ Node.headings (nest.nodes owner)) := by
  induction nest generalizing owner outer layout layout' headings with
  | nil =>
    cases ran
    simpa [Nest.nodes, Node.headings] using start.refl
  | localVar part sym declares rest ih =>
    simpa [Nest.nodes, Node.heading?_localVar declares] using ih owner start inside ran
  | record name fields span sym rest ih =>
    obtain ⟨_, added, ran⟩ := Stateful.except_bind_eq_ok.mp ran
    have isRecord := start.addRecord added
    have areRest := ih owner isRecord.qualifies (isRecord.called _ _ inside) ran
    simpa [Nest.nodes, Node.heading?] using isRecord.trans areRest
  | function name params returns body span sym inner rest ihInner ihRest =>
    obtain ⟨⟨_, made⟩, added, ran⟩ := Stateful.except_bind_eq_ok.mp ran
    obtain ⟨_, ranInner, ranRest⟩ := Stateful.except_bind_eq_ok.mp ran
    obtain ⟨isFunction, within⟩ := start.addFunction inside added
    have areInner := isFunction.trans (ihInner (some sym) isFunction.qualifies within ranInner)
    have areRest := ihRest owner areInner.qualifies (areInner.called _ _ inside) ranRest
    simpa [Nest.nodes, Node.heading?] using areInner.trans areRest

end Walk

theorem addStmts_qualified {symbols : Symbols} {m : Module .typed} {layout : Layout}
    (ran : addStmts symbols none empty m.stmts = .ok layout) :
    Qualified m.headings layout.functionNames := by
  rw [addStmts_eq] at ran
  rw [Module.headings, Module.nodes, ← Node.headings_declaring, Stmt.declaring_allNodes]
  exact (addNest_names none .empty .nowhere ran).qualifies.qualified

end Layout

theorem Node.owner_ne_none {owner : SymbolId} {body : Block .typed} {node : Node}
    (member : node ∈ body.nodes (some owner)) : node.owner ≠ none := by
  rcases body.mem_nodes_iff.mp member with ⟨part, -, rfl⟩ | ⟨function, -, part, -, rfl⟩
  · exact Option.some_ne_none _
  · exact Option.some_ne_none _

theorem Node.owner_of_mem_headings {nodes : List Node} {heading : Heading}
    (member : heading ∈ Node.headings nodes) : ∃ node ∈ nodes, node.owner = heading.owner := by
  obtain ⟨node, isNode, found⟩ := List.mem_filterMap.mp member
  refine ⟨node, isNode, ?_⟩
  obtain ⟨owner, part⟩ := node
  cases part with
  | stmt stmt => cases stmt <;> cases found; rfl
  | expr e => cases e <;> cases found
  | block body => cases found

theorem Stmt.topsDiffer {stmts : List (Stmt .typed)}
    (areDeclarations : ∀ stmt ∈ stmts, stmt.erase.IsDeclaration)
    (distinct : (stmts.filterMap Stmt.functionName?).Nodup) :
    Layout.TopsDiffer (Node.headings (Stmt.allNodes none stmts)) := by
  have tops : ∀ stmts : List (Stmt .typed), (∀ stmt ∈ stmts, stmt.erase.IsDeclaration) →
      (Node.headings (Stmt.allNodes none stmts)).filterMap
        (fun heading => if heading.owner = none then some heading.name else none) =
      stmts.filterMap Stmt.functionName? := by
    intro stmts areDeclarations
    induction stmts with
    | nil => rfl
    | cons stmt rest ih =>
      obtain ⟨isDeclaration, others⟩ := List.forall_mem_cons.mp areDeclarations
      cases stmt with
      | func name params returns body span sym =>
        have inner : (Node.headings (body.nodes (some sym))).filterMap
            (fun heading => if heading.owner = none then some heading.name else none) = [] := by
          rw [List.filterMap_eq_nil_iff]
          intro heading member
          obtain ⟨node, isNode, same⟩ := Node.owner_of_mem_headings member
          exact if_neg (same ▸ Node.owner_ne_none isNode)
        simp [Stmt.allNodes, Stmt.nodes, Node.heading?, Stmt.functionName?, inner, ih others]
      | record name fields span sym =>
        simpa [Stmt.allNodes, Stmt.nodes, Node.heading?, Stmt.functionName?,
          List.filterMap_cons] using ih others
      | letIn | expr => simp [Stmt.erase, Stmt.IsDeclaration] at isDeclaration
  rw [← tops stmts areDeclarations, List.Nodup, List.pairwise_filterMap] at distinct
  refine distinct.imp fun {first second} different isFirst isSecond => ?_
  exact different _ (if_pos isFirst) _ (if_pos isSecond)

end LetChain
