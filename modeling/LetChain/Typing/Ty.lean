import LetChain.Syntax.Outline

/-! Resolved types. -/

namespace LetChain

abbrev SymbolId := Nat

/-- `seq` still lacks its argument, and `function` is the type of no value. Two record types are
equal only if one declaration made both. -/
inductive Ty where
  | number
  | string
  | boolean
  | function
  | seq
  | seqOf (args : List Ty)
  | record (symbol : SymbolId) (name : String)

namespace Ty

mutual

def beq : Ty → Ty → Bool
  | number, number => true
  | string, string => true
  | boolean, boolean => true
  | function, function => true
  | seq, seq => true
  | seqOf args, seqOf args' => beqList args args'
  | record symbol name, record symbol' name' => symbol == symbol' && name == name'
  | _, _ => false

def beqList : List Ty → List Ty → Bool
  | [], [] => true
  | ty :: rest, ty' :: rest' => ty.beq ty' && beqList rest rest'
  | _, _ => false

end

mutual

theorem eq_of_beq : ∀ a b : Ty, a.beq b = true → a = b
  | number, b, same => by cases b <;> simp_all [beq]
  | string, b, same => by cases b <;> simp_all [beq]
  | boolean, b, same => by cases b <;> simp_all [beq]
  | function, b, same => by cases b <;> simp_all [beq]
  | seq, b, same => by cases b <;> simp_all [beq]
  | seqOf args, b, same => by
    cases b with
    | seqOf args' =>
      rw [beq] at same
      rw [eq_of_beqList args args' same]
    | _ => simp [beq] at same
  | record symbol name, b, same => by cases b <;> simp_all [beq]

theorem eq_of_beqList : ∀ as bs : List Ty, beqList as bs = true → as = bs
  | [], bs, same => by cases bs <;> simp_all [beqList]
  | a :: as, bs, same => by
    cases bs with
    | nil => simp [beqList] at same
    | cons b bs =>
      simp only [beqList, Bool.and_eq_true] at same
      rw [eq_of_beq a b same.1, eq_of_beqList as bs same.2]

end

mutual

theorem beq_refl : ∀ a : Ty, a.beq a = true
  | number | string | boolean | function | seq => rfl
  | seqOf args => by rw [beq]; exact beqList_refl args
  | record symbol name => by simp [beq]

theorem beqList_refl : ∀ as : List Ty, beqList as as = true
  | [] => rfl
  | a :: as => by rw [beqList, beq_refl a, beqList_refl as]; rfl

end

instance : DecidableEq Ty := fun a b =>
  if same : a.beq b = true then .isTrue (eq_of_beq a b same)
  else .isFalse fun eq => same (eq ▸ beq_refl a)

instance : Inhabited Ty := ⟨number⟩

def seqOfElement (element : Ty) : Ty := seqOf [element]

def element? : Ty → Option Ty
  | seqOf args => args.head?
  | _ => none

mutual

def text : Ty → String
  | number => "Number"
  | string => "String"
  | boolean => "Boolean"
  | function => "Function"
  | seq => "Seq"
  | seqOf [] => "Seq<>"
  | seqOf (first :: rest) => "Seq<" ++ first.text ++ moreText rest ++ ">"
  | record _ name => name

def moreText : List Ty → String
  | [] => ""
  | ty :: rest => ", " ++ ty.text ++ moreText rest

end

end Ty

abbrev Phase.typed : Phase := ⟨LetChain.Ty, Option LetChain.Ty, SymbolId⟩

instance : PhaseText .typed where
  ty ty := " %: " ++ ty.text
  blockTy
    | some ty => " %: " ++ ty.text
    | none => ""

end LetChain
