import LetChain.Machine.Step
import Mathlib.Data.List.Forall2

/-! Values that differ in the identities of records only. Instructions cannot tell them apart as long
as equal identities answer to equal ones. -/

namespace LetChain

namespace Value

mutual

/-- Values of one shape, whose records answer to each other. -/
inductive Alike (same : Identity → Identity → Prop) : Value → Value → Prop
  | number (value : Float) : Alike same (.number value) (.number value)
  | bool (value : Bool) : Alike same (.bool value) (.bool value)
  | text (value : String) : Alike same (.text value) (.text value)
  | boxed {inner inner' : Value} (alike : Alike same inner inner') :
      Alike same (.boxed inner) (.boxed inner')
  | record {identity identity' : Identity} {values values' : List Value} (name : String)
      (fields : List String) (answers : same identity identity') (alike : AllAlike same values values') :
      Alike same (.record identity name fields values) (.record identity' name fields values')
  | seq {items items' : List Value} (alike : AllAlike same items items') :
      Alike same (.seq items) (.seq items')

inductive AllAlike (same : Identity → Identity → Prop) : List Value → List Value → Prop
  | nil : AllAlike same [] []
  | cons {value value' : Value} {rest rest' : List Value} (first : Alike same value value')
      (others : AllAlike same rest rest') : AllAlike same (value :: rest) (value' :: rest')

end

variable {same : Identity → Identity → Prop} {value value' : Value} {values values' : List Value}

theorem allAlike_iff : AllAlike same values values' ↔ List.Forall₂ (Alike same) values values' := by
  constructor
  · intro alike
    induction values generalizing values' with
    | nil =>
      cases alike
      exact .nil
    | cons value rest ih =>
      cases alike with
      | cons first others => exact .cons first (ih others)
  · intro alike
    induction alike with
    | nil => exact .nil
    | cons first others ih => exact .cons first ih

mutual

theorem Alike.mono {same same' : Identity → Identity → Prop}
    (wider : ∀ identity identity', same identity identity' → same' identity identity') :
    ∀ {value value' : Value}, Alike same value value' → Alike same' value value'
  | _, _, .number value => .number value
  | _, _, .bool value => .bool value
  | _, _, .text value => .text value
  | _, _, .boxed alike => .boxed (alike.mono wider)
  | _, _, .record name fields answers alike =>
    .record name fields (wider _ _ answers) (alike.mono wider)
  | _, _, .seq alike => .seq (alike.mono wider)

theorem AllAlike.mono {same same' : Identity → Identity → Prop}
    (wider : ∀ identity identity', same identity identity' → same' identity identity') :
    ∀ {values values' : List Value}, AllAlike same values values' → AllAlike same' values values'
  | _, _, .nil => .nil
  | _, _, .cons first others => .cons (first.mono wider) (others.mono wider)

end

mutual

theorem Alike.refl : ∀ value : Value, Alike Eq value value
  | .number value => .number value
  | .bool value => .bool value
  | .text value => .text value
  | .boxed inner => .boxed (.refl inner)
  | .record _ name fields values => .record name fields rfl (.refl values)
  | .seq items => .seq (.refl items)

theorem AllAlike.refl : ∀ values : List Value, AllAlike Eq values values
  | [] => .nil
  | value :: rest => .cons (.refl value) (.refl rest)

end

mutual

theorem Alike.eq : ∀ {value value' : Value}, Alike Eq value value' → value = value'
  | _, _, .number _ | _, _, .bool _ | _, _, .text _ => rfl
  | _, _, .boxed alike => by rw [alike.eq]
  | _, _, .record _ _ same alike => by rw [same, alike.eq]
  | _, _, .seq alike => by rw [alike.eq]

theorem AllAlike.eq : ∀ {values values' : List Value}, AllAlike Eq values values' →
    values = values'
  | _, _, .nil => rfl
  | _, _, .cons first others => by rw [first.eq, others.eq]

end

theorem Alike.kind_eq (alike : Alike same value value') : value.kind = value'.kind := by
  cases alike <;> rfl

mutual

theorem Alike.renderOnto_eq : ∀ {value value' : Value}, Alike same value value' →
    ∀ out, value.renderOnto out = value'.renderOnto out
  | _, _, .number _, _ | _, _, .bool _, _ | _, _, .text _, _ => rfl
  | _, _, .boxed alike, out => by
    rw [renderOnto, renderOnto, alike.renderOnto_eq]
  | _, _, .record name fields _ alike, out => by
    rw [renderOnto, renderOnto, alike.renderFieldsOnto_eq]
  | _, _, .seq alike, out => by
    rw [renderOnto, renderOnto, alike.renderItemsOnto_eq]

theorem AllAlike.renderFieldsOnto_eq : ∀ {values values' : List Value}, AllAlike same values values' →
    ∀ out separator fields, renderFieldsOnto out separator fields values =
      renderFieldsOnto out separator fields values'
  | _, _, .nil, _, _, _ => rfl
  | _, _, .cons first others, out, separator, fields => by
    cases fields with
    | nil => simp only [renderFieldsOnto]
    | cons field fields =>
      rw [renderFieldsOnto, renderFieldsOnto, first.renderOnto_eq, others.renderFieldsOnto_eq]

theorem AllAlike.renderItemsOnto_eq : ∀ {values values' : List Value}, AllAlike same values values' →
    ∀ out separator, renderItemsOnto out separator values = renderItemsOnto out separator values'
  | _, _, .nil, _, _ => rfl
  | _, _, .cons first others, out, separator => by
    rw [renderItemsOnto, renderItemsOnto, first.renderOnto_eq, others.renderItemsOnto_eq]

end

theorem Alike.render_eq (alike : Alike same value value') : value.render = value'.render :=
  alike.renderOnto_eq ""

end Value

/-- Two computations that both give results, which are related, or both fail in one way. -/
inductive Outcomes {α β ε : Type} (related : α → β → Prop) : Except ε α → Except ε β → Prop
  | ok {result : α} {result' : β} (both : related result result') :
      Outcomes related (.ok result) (.ok result')
  | error (error : ε) : Outcomes related (.error error) (.error error)

/-- Equal identities answer to equal ones, and different to different ones. -/
def Faithful (same : Identity → Identity → Prop) : Prop :=
  ∀ {identity identity' other other'}, same identity identity' → same other other' →
    (identity = other ↔ identity' = other')

namespace BinaryInstr

open Value (Alike)

variable {same : Identity → Identity → Prop} {lhs lhs' rhs rhs' : Value}

theorem blame_eq (op : BinaryInstr) (left : Alike same lhs lhs') (right : Alike same rhs rhs') :
    op.blame lhs rhs = op.blame lhs' rhs' := by
  simp only [blame, RuntimeError.mismatch, apply_ite Value.kind, left.kind_eq, right.kind_eq]

theorem textOperand_eq (instr : String) (left : Alike same lhs lhs') :
    textOperand instr lhs = textOperand instr lhs' := by
  cases left with
  | boxed alike => rw [textOperand, textOperand, alike.render_eq]
  | _ => rfl

theorem blame_alike (op : BinaryInstr) (left : Alike same lhs lhs') (right : Alike same rhs rhs')
    (blamed : op.apply lhs rhs = .error (op.blame lhs rhs))
    (blamed' : op.apply lhs' rhs' = .error (op.blame lhs' rhs')) :
    Outcomes (Alike same) (op.apply lhs rhs) (op.apply lhs' rhs') := by
  rw [blamed, blamed', op.blame_eq left right]
  exact .error _

theorem apply_alike (faithful : Faithful same) (op : BinaryInstr) (left : Alike same lhs lhs')
    (right : Alike same rhs rhs') : Outcomes (Alike same) (op.apply lhs rhs) (op.apply lhs' rhs') := by
  have blames := op.blame_alike left right
  cases op with
  | concat | strEq | strNe =>
    simp only [apply, textOperand_eq _ left, textOperand_eq _ right]
    cases textOperand _ lhs' with
    | error error => exact .error error
    | ok text =>
      cases textOperand _ rhs' with
      | error error => exact .error error
      | ok text' => exact .ok (by constructor)
  | refEq | refNe =>
    cases left with
    | record name fields answers alike =>
      cases right with
      | record name' fields' answers' alike' =>
        simp only [apply, ne_eq, faithful answers answers']
        exact .ok (.bool _)
      | _ => exact blames rfl rfl
    | _ => exact blames rfl rfl
  | and | or =>
    cases left with
    | bool a =>
      cases right with
      | bool b => exact .ok (.bool _)
      | _ => exact blames rfl rfl
    | _ => exact blames rfl rfl
  | eq | ne =>
    cases left with
    | number a =>
      cases right with
      | number b => exact .ok (.bool _)
      | _ => exact blames rfl rfl
    | bool a =>
      cases right with
      | bool b => exact .ok (.bool _)
      | _ => exact blames rfl rfl
    | _ => exact blames rfl rfl
  | gt | lt =>
    cases left with
    | number a =>
      cases right with
      | number b => exact .ok (.bool _)
      | _ => exact blames rfl rfl
    | _ => exact blames rfl rfl
  | _ =>
    cases left with
    | number a =>
      cases right with
      | number b => exact .ok (.number _)
      | _ => exact blames rfl rfl
    | _ => exact blames rfl rfl

end BinaryInstr

/-! ### Arrays of related entries -/

namespace Related

variable {α β : Type} {related : α → β → Prop} {entries : Array α} {entries' : Array β}

theorem list_getElem? {list : List α} {list' : List β} (all : List.Forall₂ related list list')
    (index : Nat) : Option.Rel related list[index]? list'[index]? := by
  induction all generalizing index with
  | nil => exact .none
  | cons first others ih =>
    cases index with
    | zero => exact .some first
    | succ index => exact ih index

theorem getElem? (all : List.Forall₂ related entries.toList entries'.toList) (index : Nat) :
    Option.Rel related entries[index]? entries'[index]? := by
  rw [← Array.getElem?_toList, ← Array.getElem?_toList]
  exact list_getElem? all index

theorem setIfInBounds (all : List.Forall₂ related entries.toList entries'.toList) (index : Nat)
    {entry : α} {entry' : β} (written : related entry entry') :
    List.Forall₂ related (entries.setIfInBounds index entry).toList
      (entries'.setIfInBounds index entry').toList := by
  rw [Array.toList_setIfInBounds, Array.toList_setIfInBounds]
  generalize entries.toList = list, entries'.toList = list' at all
  induction all generalizing index with
  | nil => exact .nil
  | cons first others ih =>
    cases index with
    | zero => exact .cons written others
    | succ index => exact .cons first (ih index)

theorem size_eq (all : List.Forall₂ related entries.toList entries'.toList) :
    entries.size = entries'.size :=
  all.length_eq

theorem replicate {entry : α} {entry' : β} (both : related entry entry') (count : Nat) :
    List.Forall₂ related (Array.replicate count entry).toList (Array.replicate count entry').toList := by
  rw [Array.toList_replicate, Array.toList_replicate]
  induction count with
  | zero => exact .nil
  | succ count ih => exact .cons both ih

end Related

namespace State

open Value (Alike AllAlike)

variable {same : Identity → Identity → Prop}

theorem fillFields_alike {args args' : List Value} (alike : List.Forall₂ (Alike same) args args')
    {values values' : Array Value} (order : List Nat)
    (unfilled : List.Forall₂ (Alike same) values.toList values'.toList) :
    Outcomes (AllAlike same) (fillFields values (args.zip order))
      (fillFields values' (args'.zip order)) := by
  induction alike generalizing values values' order with
  | nil => exact .ok (Value.allAlike_iff.mpr unfilled)
  | cons first others ih =>
    cases order with
    | nil => exact .ok (Value.allAlike_iff.mpr unfilled)
    | cons index order =>
      simp only [List.zip_cons_cons, fillFields, Related.size_eq unfilled]
      split
      · exact ih order (Related.setIfInBounds unfilled index first)
      · exact .error _

end State

namespace Range

open Value (Alike AllAlike)

variable {same : Identity → Identity → Prop}

theorem elements_alike (first limit step : Float) (ascending : Bool) (count index : Nat)
    {done : Array Value} (alike : List.Forall₂ (Alike same) done.toList done.toList) :
    AllAlike same (elements first limit step ascending count index done)
      (elements first limit step ascending count index done) := by
  induction count generalizing index done with
  | zero => exact Value.allAlike_iff.mpr alike
  | succ count ih =>
    let value := element first step ascending index
    rw [elements]
    by_cases before : if ascending then value < limit else limit < value
    · rw [if_pos before]
      refine ih _ ?_
      rw [Array.toList_push]
      exact List.rel_append alike (.cons (.number _) .nil)
    · rw [if_neg before]
      exact Value.allAlike_iff.mpr alike

theorem generate_alike {first limit step : Float} {maxLength : Nat} {items : List Value}
    (generated : generate first limit step maxLength = .ok items) : AllAlike same items items := by
  unfold generate at generated
  split at generated
  · cases generated
  · dsimp only at generated
    split at generated
    · cases generated
    · cases generated
      exact elements_alike _ _ _ _ _ _ .nil

end Range

end LetChain
