import LetChain.Position
import Mathlib

/-! Places between characters and their lines and columns are in the same order, and each determines
the other. -/

namespace LetChain.Position

instance : LT Position :=
  ⟨fun a b => a.line < b.line ∨ a.line = b.line ∧ a.column < b.column⟩

theorem lt_iff {a b : Position} :
    a < b ↔ a.line < b.line ∨ a.line = b.line ∧ a.column < b.column := Iff.rfl

theorem lt_irrefl (a : Position) : ¬a < a := by
  rw [lt_iff]
  omega

theorem lt_trans {a b c : Position} (first : a < b) (second : b < c) : a < c := by
  rw [lt_iff] at *
  omega

theorem lt_next (position : Position) (c : Char) : position < position.next c := by
  rw [lt_iff, next]
  split
  · exact .inl (Nat.lt_succ_self _)
  · exact .inr ⟨rfl, Nat.lt_succ_self _⟩

theorem lt_foldl_next {cs : List Char} (more : cs ≠ []) (position : Position) :
    position < cs.foldl next position := by
  induction cs generalizing position with
  | nil => exact absurd rfl more
  | cons c rest ih =>
    cases rest with
    | nil => exact lt_next position c
    | cons => exact lt_trans (lt_next position c) (ih (by simp) (position.next c))

theorem foldl_next_line {cs : List Char} (inner : '\n' ∉ cs) (position : Position) :
    cs.foldl next position = ⟨position.line, position.column + cs.length⟩ := by
  induction cs generalizing position with
  | nil => rfl
  | cons c rest ih =>
    rw [List.mem_cons, not_or] at inner
    rw [List.foldl_cons, ih inner.2, next, if_neg (Ne.symm inner.1), List.length_cons]
    simp only [mk.injEq, true_and]
    omega

/-! ### Offsets -/

/-- Whether an offset lies between two characters, or at an end. -/
def IsBoundary (source : String) (offset : Nat) : Prop := String.Pos.Raw.IsValid source ⟨offset⟩

theorem isBoundary_iff {source : String} {offset : Nat} : IsBoundary source offset ↔
    ∃ before after, source = before ++ after ∧ offset = before.utf8ByteSize := by
  simp only [IsBoundary, String.Pos.Raw.isValid_iff_exists_append, String.Pos.Raw.ext_iff,
    String.byteIdx_rawEndPos]

theorem utf8ByteSize_cons (c : Char) (cs : List Char) :
    (String.ofList (c :: cs)).utf8ByteSize = c.utf8Size + (String.ofList cs).utf8ByteSize := by
  rw [← List.singleton_append, String.ofList_append, String.utf8ByteSize_append]
  simp

theorem walk_of_boundary (before after : List Char) (position : Position) :
    walk (String.ofList before).utf8ByteSize position (before ++ after) =
      before.foldl next position := by
  induction before generalizing position with
  | nil => cases after <;> simp [walk]
  | cons c rest ih =>
    have size := c.utf8Size_pos
    rw [utf8ByteSize_cons, List.cons_append, walk, if_neg (by omega), if_pos (by omega),
      Nat.add_sub_cancel_left, ih, List.foldl_cons]

theorem walk_of_not_boundary {cs : List Char} {offset : Nat} (position : Position)
    (inside : ∀ before after, cs = before ++ after → offset ≠ (String.ofList before).utf8ByteSize) :
    walk offset position cs = cs.foldl next position := by
  induction cs generalizing offset position with
  | nil => rfl
  | cons c rest ih =>
    have some : offset ≠ 0 := inside [] (c :: rest) rfl
    rw [walk, if_neg some]
    split
    case isTrue enough =>
      refine ih (position.next c) fun before after split same => ?_
      refine inside (c :: before) after (by rw [split, List.cons_append]) ?_
      rw [utf8ByteSize_cons]
      omega
    case isFalse => rfl

theorem ofOffset_append (before after : String) :
    ofOffset (before ++ after) before.utf8ByteSize = before.toList.foldl next start := by
  have walked := walk_of_boundary before.toList after.toList start
  rwa [String.ofList_toList, ← String.toList_append] at walked

theorem ofOffset_end (source : String) :
    ofOffset source source.utf8ByteSize = source.toList.foldl next start := by
  have walked := ofOffset_append source ""
  rwa [String.append_empty] at walked

theorem ofOffset_lt {source : String} {a b : Nat} (boundary : IsBoundary source a)
    (boundary' : IsBoundary source b) (less : a < b) : ofOffset source a < ofOffset source b := by
  obtain ⟨before, after, rfl, rfl⟩ := isBoundary_iff.mp boundary
  obtain ⟨before', after', split, rfl⟩ := isBoundary_iff.mp boundary'
  have chars := congrArg String.toList split
  rw [String.toList_append, String.toList_append, List.append_eq_append_iff] at chars
  obtain ⟨more, longer, -⟩ | ⟨more, shorter, -⟩ := chars
  · have isLonger : before' = before ++ String.ofList more := by
      rw [← String.toList_inj, longer]
      simp
    rw [split, ofOffset_append before' after', ← split, ofOffset_append, longer, List.foldl_append]
    refine lt_foldl_next ?_ _
    rintro rfl
    rw [isLonger] at less
    simp at less
  · have isShorter : before = before' ++ String.ofList more := by
      rw [← String.toList_inj, shorter]
      simp
    rw [isShorter, String.utf8ByteSize_append] at less
    omega

/-! ### Lines -/

/-- Some whole lines with their newlines. -/
def whole (lines : List String) : String := String.join (lines.map (· ++ "\n"))

/-- The offset is reached by going past as many newlines as the line has before it, and then past as
many characters of the line as the column has before it. -/
def Reaches (source : String) (position : Position) (offset : Nat) : Prop :=
  ∃ (lines : List String) (front rest : String),
    source = whole lines ++ front ++ rest ∧ (∀ line ∈ lines, '\n' ∉ line.toList) ∧
    '\n' ∉ front.toList ∧ position = ⟨lines.length + 1, front.length + 1⟩ ∧
    offset = (whole lines ++ front).utf8ByteSize

theorem toList_whole_cons (line : String) (lines : List String) :
    (whole (line :: lines)).toList = line.toList ++ '\n' :: (whole lines).toList := by
  simp [whole, String.join_cons]

theorem whole_concat (lines : List String) (line : String) :
    whole (lines ++ [line]) = whole lines ++ line ++ "\n" := by
  simp [whole, String.join_append, String.append_assoc]

theorem foldl_next_whole {lines : List String} (inner : ∀ line ∈ lines, '\n' ∉ line.toList)
    (line : Nat) : (whole lines).toList.foldl next ⟨line, 1⟩ = ⟨line + lines.length, 1⟩ := by
  induction lines generalizing line with
  | nil => rfl
  | cons first others ih =>
    rw [toList_whole_cons, List.foldl_append, foldl_next_line (inner first List.mem_cons_self),
      List.foldl_cons, next, if_pos rfl, ih fun line member => inner line (.tail _ member)]
    simp only [List.length_cons, mk.injEq, and_true]
    omega

theorem exists_lines (cs : List Char) : ∃ (lines : List String) (front : String),
    String.ofList cs = whole lines ++ front ∧ (∀ line ∈ lines, '\n' ∉ line.toList) ∧
      '\n' ∉ front.toList := by
  induction cs using List.reverseRecOn with
  | nil => exact ⟨[], "", rfl, by simp, by simp⟩
  | append_singleton cs c ih =>
    obtain ⟨lines, front, split, inner, inner'⟩ := ih
    by_cases newline : c = '\n'
    · refine ⟨lines ++ [front], "", ?_, ?_, by simp⟩
      · rw [String.ofList_append, split, whole_concat, newline, String.append_empty]
      · intro line member
        rcases List.mem_append.mp member with older | last
        · exact inner line older
        · rwa [List.mem_singleton.mp last]
    · refine ⟨lines, front ++ String.ofList [c], ?_, inner, ?_⟩
      · rw [String.ofList_append, split, String.append_assoc]
      · simp [inner', Ne.symm newline]

theorem ofOffset_whole {lines : List String} {front : String}
    (inner : ∀ line ∈ lines, '\n' ∉ line.toList) (inner' : '\n' ∉ front.toList) (rest : String) :
    ofOffset (whole lines ++ front ++ rest) (whole lines ++ front).utf8ByteSize =
      ⟨lines.length + 1, front.length + 1⟩ := by
  rw [ofOffset_append, String.toList_append, List.foldl_append, start, foldl_next_whole inner,
    foldl_next_line inner']
  simp only [String.length_toList, mk.injEq]
  omega

theorem ofOffset_eq_iff {source : String} {offset : Nat} (boundary : IsBoundary source offset)
    (position : Position) : ofOffset source offset = position ↔ position.Reaches source offset := by
  constructor
  · rintro rfl
    obtain ⟨before, rest, rfl, rfl⟩ := isBoundary_iff.mp boundary
    obtain ⟨lines, front, split, inner, inner'⟩ := exists_lines before.toList
    rw [String.ofList_toList] at split
    subst split
    exact ⟨lines, front, rest, rfl, inner, inner', ofOffset_whole inner inner' rest, rfl⟩
  · rintro ⟨lines, front, rest, rfl, inner, inner', rfl, rfl⟩
    exact ofOffset_whole inner inner' rest

theorem ofOffset_inside {source : String} {offset : Nat} (inside : ¬IsBoundary source offset) :
    ofOffset source offset = ofOffset source source.utf8ByteSize := by
  rw [ofOffset_end]
  refine walk_of_not_boundary start fun before after split same => inside ?_
  refine isBoundary_iff.mpr ⟨String.ofList before, String.ofList after, ?_, same⟩
  rw [← String.ofList_append, ← split, String.ofList_toList]

/-- Offsets between characters and positions are in the same order and determine each other, and
every other offset has the position of the end. -/
theorem ofOffset_isomorphic (source : String) :
    (∀ a b, IsBoundary source a → IsBoundary source b →
      (a < b ↔ ofOffset source a < ofOffset source b)) ∧
    (∀ offset, IsBoundary source offset → ∀ position,
      ofOffset source offset = position ↔ position.Reaches source offset) ∧
    ∀ offset, ¬IsBoundary source offset →
      ofOffset source offset = ofOffset source source.utf8ByteSize := by
  refine ⟨fun a b boundary boundary' => ⟨ofOffset_lt boundary boundary', fun less => ?_⟩,
    fun offset boundary position => ofOffset_eq_iff boundary position,
    fun offset inside => ofOffset_inside inside⟩
  rcases Nat.lt_trichotomy a b with before | rfl | after
  · exact before
  · exact absurd less (lt_irrefl _)
  · exact absurd (lt_trans less (ofOffset_lt boundary' boundary after)) (lt_irrefl _)

/-- A letter of two bytes, and a line without characters. -/
theorem ofOffset_isomorphic_accent :
    let source := "aé\n\nz"
    (IsBoundary source 1 ∧ IsBoundary source 4 ∧ ¬IsBoundary source 2) ∧
      ofOffset source 1 < ofOffset source 4 ∧ Reaches source ⟨2, 1⟩ 4 ∧
      ofOffset source 2 = ofOffset source 6 := by
  intro source
  have first : IsBoundary source 1 := isBoundary_iff.mpr ⟨"a", "é\n\nz", rfl, rfl⟩
  have second : IsBoundary source 4 := isBoundary_iff.mpr ⟨"aé\n", "\nz", rfl, rfl⟩
  have inside : ¬IsBoundary source 2 := by
    rw [IsBoundary]
    decide
  obtain ⟨order, reaches, others⟩ := ofOffset_isomorphic source
  refine ⟨⟨first, second, inside⟩, (order 1 4 first second).mp (by decide), ?_, others 2 inside⟩
  exact (reaches 4 second ⟨2, 1⟩).mp (by cbv)

end LetChain.Position
