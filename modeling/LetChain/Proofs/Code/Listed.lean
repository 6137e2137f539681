import LetChain.Proofs.Code.Legible
import LetChain.Proofs.Stateful

/-! A listing determines its program, numbers of records apart, if names tell records and routines
apart. -/

namespace LetChain

namespace Program

theorem mapM_forall₂ {ε α β : Type} {f : α → Except ε β} {xs : List α} {ys : List β}
    (ran : xs.mapM f = .ok ys) : List.Forall₂ (fun x y => f x = .ok y) xs ys := by
  induction xs generalizing ys with
  | nil =>
    cases ran
    exact .nil
  | cons x rest ih =>
    rw [List.mapM_cons] at ran
    obtain ⟨y, first, ran⟩ := Stateful.except_bind_eq_ok.mp ran
    obtain ⟨others, ranRest, eq⟩ := Stateful.except_bind_eq_ok.mp ran
    cases eq
    exact .cons first (ih ranRest)

section Relations

variable {α β γ : Type} {related : α → γ → Prop} {related' : β → γ → Prop}

theorem exists_of_mem_right {xs : List α} {zs : List γ} (both : List.Forall₂ related xs zs) {z : γ}
    (member : z ∈ zs) : ∃ x ∈ xs, related x z := by
  induction both with
  | nil => cases member
  | cons first _ ih =>
    rcases List.mem_cons.mp member with rfl | member
    · exact ⟨_, List.mem_cons_self, first⟩
    · obtain ⟨x, isIn, relates⟩ := ih member
      exact ⟨x, .tail _ isIn, relates⟩

theorem forall₂_shared {xs : List α} {ys : List β} {zs : List γ} (left : List.Forall₂ related xs zs)
    (right : List.Forall₂ related' ys zs) :
    List.Forall₂ (fun x y => ∃ z, related x z ∧ related' y z) xs ys := by
  induction left generalizing ys with
  | nil =>
    cases right
    exact .nil
  | cons first _ ih =>
    cases right with
    | cons first' others' => exact .cons ⟨_, first, first'⟩ (ih others')

theorem forall₂_last {related : α → β → Prop} {xs : List α} {ys : List β} {x : α} {y : β}
    (both : List.Forall₂ related (xs ++ [x]) (ys ++ [y])) : List.Forall₂ related xs ys ∧ related x y := by
  have lengths : xs.length = ys.length := by simpa using both.length_eq
  have front := List.forall₂_take_append _ _ _ both
  have back := List.forall₂_drop_append _ _ _ both
  rw [← lengths, List.take_left] at front
  rw [← lengths, List.drop_left] at back
  cases back with
  | cons last _ => exact ⟨front, last⟩

theorem forall₂_with {good : α → Prop} {good' : β → Prop} {related : α → β → Prop} {xs : List α}
    {ys : List β} (both : List.Forall₂ related xs ys) (left : ∀ x ∈ xs, good x)
    (right : ∀ y ∈ ys, good' y) :
    List.Forall₂ (fun x y => good x ∧ good' y ∧ related x y) xs ys := by
  induction both with
  | nil => exact .nil
  | cons first _ ih =>
    refine .cons ⟨left _ List.mem_cons_self, right _ List.mem_cons_self, first⟩ ?_
    exact ih (fun x member => left x (.tail _ member)) fun y member => right y (.tail _ member)

end Relations

/-! ### Blocks -/

def BlockOf (program : Program) (routine : Routine) (block : List String) : Prop :=
  ∃ lines, List.Forall₂ (fun instr line => program.instrLine instr = .ok line) routine.code.toList lines ∧
    block = routineHead routine :: lines ++ ["\n"]

def recordBlocks (program : Program) : List (List String) :=
  if program.records.toList = [] then [] else [program.records.toList.map recordLine ++ ["\n"]]

variable {program program' : Program} {text : String}

theorem routineText_block {routine : Routine} (listed : program.routineText routine = .ok text) :
    ∃ block, program.BlockOf routine block ∧ text.toList = (block.map String.toList).flatten := by
  simp only [routineText] at listed
  obtain ⟨lines, ran, eq⟩ := Stateful.except_bind_eq_ok.mp listed
  cases eq
  refine ⟨_, ⟨lines, mapM_forall₂ ran, rfl⟩, ?_⟩
  rw [String.toList_append, String.toList_append, String.toList_join, List.map_append,
    List.flatten_append, List.map_cons, List.flatten_cons, List.flatMap_def]
  rfl

theorem routineTexts_blocks {routines : List Routine} {texts : List String}
    (listed : List.Forall₂ (fun routine text => program.routineText routine = .ok text) routines texts) :
    ∃ blocks, List.Forall₂ program.BlockOf routines blocks ∧
      texts.flatMap String.toList = (blocks.flatten.map String.toList).flatten := by
  induction listed with
  | nil => exact ⟨[], .nil, rfl⟩
  | cons first _ ih =>
    obtain ⟨block, ofBlock, eq⟩ := routineText_block first
    obtain ⟨blocks, ofBlocks, eqs⟩ := ih
    refine ⟨block :: blocks, .cons ofBlock ofBlocks, ?_⟩
    rw [List.flatMap_cons, eq, eqs, List.flatten_cons, List.map_append, List.flatten_append]

theorem recordsText_blocks (program : Program) : (recordsText program.records.toList).toList =
    (program.recordBlocks.flatten.map String.toList).flatten := by
  simp only [recordsText, recordBlocks, List.isEmpty_iff]
  split
  · rfl
  · rw [String.toList_append, String.toList_join, List.flatten_singleton, List.map_append,
      List.flatten_append, List.flatMap_def]
    rfl

theorem listing_blocks (listed : program.listing = .ok text) : ∃ blocks,
    List.Forall₂ program.BlockOf (program.routines.toList ++ [program.entry]) blocks ∧
      text.toList = ((program.recordBlocks ++ blocks).flatten.map String.toList).flatten := by
  simp only [listing] at listed
  obtain ⟨texts, ran, eq⟩ := Stateful.except_bind_eq_ok.mp listed
  cases eq
  obtain ⟨blocks, ofBlocks, joined⟩ := routineTexts_blocks (mapM_forall₂ ran)
  refine ⟨blocks, ofBlocks, ?_⟩
  rw [String.toList_append, recordsText_blocks, String.toList_join, joined, List.flatten_append,
    List.map_append, List.flatten_append]

/-! ### Lines and blocks are told apart -/

theorem BlockOf.ended (legible : program.Legible) {routine : Routine} (word : Unbroken routine.name)
    {block : List String} (ofBlock : program.BlockOf routine block) :
    (∀ line ∈ block, Text.Ended '\n' line.toList) ∧ Text.Ended "\n" block := by
  obtain ⟨lines, each, rfl⟩ := ofBlock
  have all : ∀ line ∈ routineHead routine :: lines, Line line := by
    intro line member
    rcases List.mem_cons.mp member with rfl | member
    · exact routineHead_line word
    · obtain ⟨instr, -, listed⟩ := exists_of_mem_right each member
      exact instrLine_line legible listed
  constructor
  · intro line member
    rcases List.mem_append.mp member with member | member
    · exact (all line member).1
    · cases List.mem_singleton.mp member
      exact ⟨[], rfl, List.not_mem_nil⟩
  · exact ⟨_, rfl, fun member => (all _ member).2 rfl⟩

theorem recordBlocks_ended (legible : program.Legible) : ∀ block ∈ program.recordBlocks,
    (∀ line ∈ block, Text.Ended '\n' line.toList) ∧ Text.Ended "\n" block := by
  have all : ∀ line ∈ program.records.toList.map recordLine, Line line := by
    intro line member
    obtain ⟨layout, isRecord, rfl⟩ := List.mem_map.mp member
    exact recordLine_line (legible.records layout (Array.mem_toList_iff.mp isRecord))
  intro block member
  simp only [recordBlocks] at member
  split at member
  · cases member
  · cases List.mem_singleton.mp member
    refine ⟨fun line isLine => ?_, _, rfl, fun isLine => (all _ isLine).2 rfl⟩
    rcases List.mem_append.mp isLine with isLine | isLast
    · exact (all line isLine).1
    · cases List.mem_singleton.mp isLast
      exact ⟨[], rfl, List.not_mem_nil⟩

theorem Legible.routine_mem (legible : program.Legible) {routine : Routine}
    (member : routine ∈ program.routines.toList ++ [program.entry]) : routine.Legible := by
  rcases List.mem_append.mp member with member | member
  · exact legible.routines routine (Array.mem_toList_iff.mp member)
  · cases List.mem_singleton.mp member
    exact legible.entry

theorem blocks_ended (legible : program.Legible) {blocks : List (List String)}
    (ofBlocks : List.Forall₂ program.BlockOf (program.routines.toList ++ [program.entry]) blocks) :
    ∀ block ∈ program.recordBlocks ++ blocks,
      (∀ line ∈ block, Text.Ended '\n' line.toList) ∧ Text.Ended "\n" block := by
  intro block member
  rcases List.mem_append.mp member with member | member
  · exact recordBlocks_ended legible block member
  · obtain ⟨routine, isRoutine, ofBlock⟩ := exists_of_mem_right ofBlocks member
    exact ofBlock.ended legible (legible.routine_mem isRoutine).name

theorem blocks_eq (legible : program.Legible) (legible' : program'.Legible)
    (listed : program.listing = .ok text) (listed' : program'.listing = .ok text) :
    ∃ blocks blocks', program.recordBlocks ++ blocks = program'.recordBlocks ++ blocks' ∧
      List.Forall₂ program.BlockOf (program.routines.toList ++ [program.entry]) blocks ∧
      List.Forall₂ program'.BlockOf (program'.routines.toList ++ [program'.entry]) blocks' := by
  obtain ⟨blocks, ofBlocks, chars⟩ := listing_blocks listed
  obtain ⟨blocks', ofBlocks', chars'⟩ := listing_blocks listed'
  have ended := blocks_ended legible ofBlocks
  have ended' := blocks_ended legible' ofBlocks'
  have lineEnded {all : List (List String)}
      (ended : ∀ block ∈ all, (∀ line ∈ block, Text.Ended '\n' line.toList) ∧ Text.Ended "\n" block) :
      ∀ line ∈ all.flatten.map String.toList, Text.Ended '\n' line := by
    intro chars member
    obtain ⟨line, isLine, rfl⟩ := List.mem_map.mp member
    obtain ⟨block, isBlock, inBlock⟩ := List.mem_flatten.mp isLine
    exact (ended block isBlock).1 line inBlock
  have lines := Text.flatten_injective (lineEnded ended) (lineEnded ended') (chars.symm.trans chars')
  have lines := List.map_injective_iff.mpr (fun _ _ => String.toList_inj.mp) lines
  exact ⟨blocks, blocks', Text.flatten_injective (fun block member => (ended block member).2)
    (fun block member => (ended' block member).2) lines, ofBlocks, ofBlocks'⟩

theorem BlockOf.ne_records {routine : Routine} {block : List String}
    (ofBlock : program.BlockOf routine block) {layouts : List RecordLayout} (some : layouts ≠ []) :
    block ≠ layouts.map recordLine ++ ["\n"] := by
  obtain ⟨lines, -, rfl⟩ := ofBlock
  obtain ⟨layout, others, rfl⟩ := List.exists_cons_of_ne_nil some
  intro same
  exact routineHead_ne_recordLine (List.cons.inj same).1

theorem recordLines_injective {layouts layouts' : List RecordLayout}
    (legible : ∀ layout ∈ layouts, layout.Legible) (legible' : ∀ layout ∈ layouts', layout.Legible)
    (same : layouts.map recordLine = layouts'.map recordLine) : layouts = layouts' := by
  induction layouts generalizing layouts' with
  | nil => exact (List.map_eq_nil_iff.mp same.symm).symm
  | cons layout others ih =>
    obtain ⟨layout', others', rfl, line, lines⟩ := List.map_eq_cons_iff.mp same.symm
    rw [recordLine_injective (legible _ List.mem_cons_self) (legible' _ List.mem_cons_self) line.symm,
      ih (fun layout member => legible layout (.tail _ member))
        (fun layout member => legible' layout (.tail _ member)) lines.symm]

theorem records_eq (legible : program.Legible) (legible' : program'.Legible)
    {blocks blocks' : List (List String)}
    (same : program.recordBlocks ++ blocks = program'.recordBlocks ++ blocks')
    (ofBlocks : List.Forall₂ program.BlockOf (program.routines.toList ++ [program.entry]) blocks)
    (ofBlocks' : List.Forall₂ program'.BlockOf (program'.routines.toList ++ [program'.entry]) blocks') :
    program.records = program'.records ∧ blocks = blocks' := by
  simp only [recordBlocks] at same
  split at same
  case isTrue none =>
    split at same
    case isTrue none' => exact ⟨Array.toList_inj.mp (none.trans none'.symm), same⟩
    case isFalse some' =>
      rw [List.nil_append] at same
      rw [same] at ofBlocks
      obtain ⟨routine, -, ofBlock⟩ := exists_of_mem_right ofBlocks List.mem_cons_self
      exact (ofBlock.ne_records some' rfl).elim
  case isFalse some =>
    split at same
    case isTrue =>
      rw [List.nil_append] at same
      rw [← same] at ofBlocks'
      obtain ⟨routine, -, ofBlock⟩ := exists_of_mem_right ofBlocks' List.mem_cons_self
      exact (ofBlock.ne_records some rfl).elim
    case isFalse =>
      obtain ⟨lines, rest⟩ := List.cons.inj same
      refine ⟨Array.toList_inj.mp ?_, rest⟩
      exact recordLines_injective
        (fun layout member => legible.records layout (Array.mem_toList_iff.mp member))
        (fun layout member => legible'.records layout (Array.mem_toList_iff.mp member))
        (List.append_cancel_right lines)

theorem labels_eq {calls records : Nat → Nat → Prop} {routine routine' : Routine}
    (legible : routine.Legible) (legible' : routine'.Legible)
    (code : List.Forall₂ (Instr.Twin calls records) routine.code.toList routine'.code.toList) :
    routine.labels = routine'.labels := by
  have marks (pc : Nat) (label : Label) :
      routine.code[pc]? = some (.mark label) ↔ routine'.code[pc]? = some (.mark label) := by
    have found := Related.getElem? code pc
    generalize routine.code[pc]? = entry, routine'.code[pc]? = entry' at found
    cases found with
    | none => exact Iff.rfl
    | some twins =>
      constructor
      · rintro ⟨⟩
        cases twins
        rfl
      · rintro ⟨⟩
        cases twins
        rfl
  apply Array.ext_getElem?
  intro label
  apply Option.ext
  intro pc
  exact (legible.marks label pc).trans ((marks pc label).trans (legible'.marks label pc).symm)

theorem BlockOf.twin (agree : program.Agree program') {routine routine' : Routine}
    (legible : routine.Legible) (legible' : routine'.Legible) {block : List String}
    (ofBlock : program.BlockOf routine block) (ofBlock' : program'.BlockOf routine' block) :
    routine.Twin Eq (program.SameRecord program') routine' := by
  obtain ⟨lines, each, rfl⟩ := ofBlock
  obtain ⟨lines', each', same⟩ := ofBlock'
  obtain ⟨heads, rest⟩ := List.cons.inj same
  obtain rfl := List.append_cancel_right rest
  obtain ⟨name, params, locals, iterators⟩ := routineHead_injective legible.name legible'.name heads
  have code : List.Forall₂ (Instr.Twin Eq (program.SameRecord program')) routine.code.toList
      routine'.code.toList :=
    (forall₂_shared each each').imp fun _ _ ⟨_, listed, listed'⟩ => instrLine_twin agree listed listed'
  exact ⟨name, params, locals, iterators, labels_eq legible legible' code, code⟩

theorem BlockOf.name_eq {routine routine' : Routine} (legible : routine.Legible)
    (legible' : routine'.Legible) {block : List String} (ofBlock : program.BlockOf routine block)
    (ofBlock' : program'.BlockOf routine' block) : routine.name = routine'.name := by
  obtain ⟨lines, -, rfl⟩ := ofBlock
  obtain ⟨lines', -, same⟩ := ofBlock'
  exact (routineHead_injective legible.name legible'.name (List.cons.inj same).1).1

theorem listing_twin (legible : program.Legible) (legible' : program'.Legible)
    (unambiguous : program.Unambiguous) (listed : program.listing = .ok text)
    (listed' : program'.listing = .ok text) :
    program.Twin Eq (program.SameRecord program') program' := by
  obtain ⟨blocks, blocks', same, ofBlocks, ofBlocks'⟩ := blocks_eq legible legible' listed listed'
  obtain ⟨records, rfl⟩ := records_eq legible legible' same ofBlocks ofBlocks'
  obtain ⟨routines, block, ofBlock, ofBlock'⟩ := forall₂_last (forall₂_shared ofBlocks ofBlocks')
  have routines := forall₂_with routines
    (fun routine member => legible.routines routine (Array.mem_toList_iff.mp member))
    (fun routine member => legible'.routines routine (Array.mem_toList_iff.mp member))
  have agree : program.Agree program' := by
    refine ⟨?_, legible.distinct, records, legible.records, unambiguous⟩
    rw [← List.forall₂_eq_eq_eq, List.forall₂_map_left_iff, List.forall₂_map_right_iff]
    exact routines.imp fun _ _ ⟨legible, legible', _, ofBlock, ofBlock'⟩ =>
      ofBlock.name_eq legible legible' ofBlock'
  refine ⟨?_, ?_, ofBlock.twin agree legible.entry legible'.entry ofBlock'⟩
  · rintro index _ rfl
    have found := Related.getElem? routines index
    simp only [routine]
    generalize program.routines[index]? = entry, program'.routines[index]? = entry' at found
    cases found with
    | none => exact .error _
    | some both =>
      obtain ⟨legible, legible', _, ofBlock, ofBlock'⟩ := both
      exact .ok (ofBlock.twin agree legible legible' ofBlock')
  · rintro index index' ⟨layout, present, present'⟩
    simp only [record, present, present']

end Program

end LetChain
