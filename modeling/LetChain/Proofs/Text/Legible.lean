import LetChain.Text.Quoted

/-! Texts that can be taken apart again: parts that end in a separator, digits, and quoted text. -/

namespace LetChain.Text

section

variable {α : Type} {stop : α}

theorem ended_injective {part part' rest rest' : List α} (free : stop ∉ part) (free' : stop ∉ part')
    (same : part ++ stop :: rest = part' ++ stop :: rest') : part = part' ∧ rest = rest' := by
  induction part generalizing part' with
  | nil =>
    cases part' with
    | nil => exact ⟨rfl, (List.cons.inj same).2⟩
    | cons first others =>
      obtain rfl : stop = first := (List.cons.inj same).1
      exact absurd List.mem_cons_self free'
  | cons first others ih =>
    cases part' with
    | nil =>
      obtain rfl : first = stop := (List.cons.inj same).1
      exact absurd List.mem_cons_self free
    | cons first' others' =>
      obtain ⟨rfl, tails⟩ := List.cons.inj same
      obtain ⟨rfl, rfl⟩ := ih (fun member => free (.tail _ member))
        (fun member => free' (.tail _ member)) tails
      exact ⟨rfl, rfl⟩

def Ended (stop : α) (part : List α) : Prop := ∃ front, part = front ++ [stop] ∧ stop ∉ front

theorem flatten_injective {parts parts' : List (List α)} (ended : ∀ part ∈ parts, Ended stop part)
    (ended' : ∀ part ∈ parts', Ended stop part) (same : parts.flatten = parts'.flatten) :
    parts = parts' := by
  induction parts generalizing parts' with
  | nil =>
    cases parts' with
    | nil => rfl
    | cons first others =>
      obtain ⟨front, rfl, -⟩ := ended' first List.mem_cons_self
      simp at same
  | cons first others ih =>
    obtain ⟨front, rfl, free⟩ := ended _ List.mem_cons_self
    cases parts' with
    | nil => simp at same
    | cons first' others' =>
      obtain ⟨front', rfl, free'⟩ := ended' _ List.mem_cons_self
      simp only [List.flatten_cons, List.append_assoc, List.singleton_append] at same
      obtain ⟨rfl, rest⟩ := ended_injective free free' same
      rw [ih (fun part member => ended part (.tail _ member))
        (fun part member => ended' part (.tail _ member)) rest]

end

/-! ### Digits -/

theorem digitChar_injective {m n : Nat} (small : m < 16) (small' : n < 16)
    (same : Nat.digitChar m = Nat.digitChar n) : m = n := by
  have all : ∀ i j : Fin 16, Nat.digitChar i = Nat.digitChar j → i = j := by decide
  exact congrArg Fin.val (all ⟨m, small⟩ ⟨n, small'⟩ same)

theorem toDigits_injective {base : Nat} (two : 1 < base) (sixteen : base ≤ 16) :
    ∀ {m n : Nat}, Nat.toDigits base m = Nat.toDigits base n → m = n := by
  intro m
  induction m using Nat.strongRecOn with
  | ind m ih =>
    intro n same
    have longer (k : Nat) (c c' : Char) : Nat.toDigits base k ++ [c] ≠ [c'] := by
      intro eq
      have length := congrArg List.length eq
      simp [Nat.toDigits_ne_nil] at length
    have last (k : Nat) : k % base < 16 := Nat.lt_of_lt_of_le (Nat.mod_lt k (by omega)) sixteen
    rw [Nat.toDigits_eq_if (n := m) two, Nat.toDigits_eq_if (n := n) two] at same
    split at same
    case isTrue small =>
      split at same
      case isTrue small' =>
        exact digitChar_injective (by omega) (by omega) (List.cons.inj same).1
      case isFalse => exact (longer _ _ _ same.symm).elim
    case isFalse large =>
      split at same
      case isTrue => exact (longer _ _ _ same).elim
      case isFalse large' =>
        obtain ⟨front, back⟩ := List.append_inj' same rfl
        have quotient := ih (m / base) (Nat.div_lt_self (by omega) two) front
        have remainder := digitChar_injective (last m) (last n) (List.cons.inj back).1
        rw [← Nat.div_add_mod m base, ← Nat.div_add_mod n base, quotient, remainder]

theorem repr_injective {m n : Nat} (same : (Nat.repr m).toList = (Nat.repr n).toList) : m = n := by
  rw [Nat.toList_repr, Nat.toList_repr] at same
  exact toDigits_injective (by decide) (by decide) same

theorem notMem_repr {c : Char} (noDigit : c.isDigit = false) {n : Nat} : c ∉ (Nat.repr n).toList := by
  rw [Nat.toList_repr]
  intro member
  rw [Nat.isDigit_of_mem_toDigits (by decide) (by decide) member] at noDigit
  cases noDigit

theorem notMem_toDigits {c : Char} (noDigit : ∀ i : Fin 16, Nat.digitChar i ≠ c) (n : Nat) :
    c ∉ Nat.toDigits 16 n := by
  induction n using Nat.strongRecOn with
  | ind n ih =>
    rw [Nat.toDigits_eq_if (by decide)]
    split
    case isTrue small =>
      rw [List.mem_singleton]
      exact (noDigit ⟨n, small⟩).symm
    case isFalse large =>
      rw [List.mem_append, List.mem_singleton]
      rintro (member | eq)
      · exact ih (n / 16) (by omega) member
      · exact noDigit ⟨n % 16, Nat.mod_lt n (by decide)⟩ eq.symm

/-! ### Quoted text -/

def lettered : List (Char × Char) :=
  [('\x00', '0'), ('\t', 't'), ('\r', 'r'), ('\n', 'n'), ('\\', '\\'), ('"', '"')]

theorem lettered_injective : ∀ entry ∈ lettered, ∀ entry' ∈ lettered,
    entry.2 = entry'.2 → entry.1 = entry'.1 := by decide

theorem lettered_ne_digits : ∀ entry ∈ lettered, entry.2 ≠ 'u' := by decide

theorem lettered_line : ∀ entry ∈ lettered, entry.2 ≠ '\n' := by decide

/-- A character is written as itself, by a letter after a backslash, or by its digits. -/
inductive Escaped (c : Char) : Prop
  | plain (eq : escape c = [c]) (unmarked : c ≠ '\\') (line : c ≠ '\n')
  | letter (letter : Char) (eq : escape c = ['\\', letter]) (known : (c, letter) ∈ lettered)
  | digits (eq : escape c = '\\' :: 'u' :: '\x7b' :: (Nat.toDigits 16 c.toNat ++ ['\x7d']))

theorem escape_escaped (c : Char) : Escaped c := by
  obtain ⟨written, eq⟩ : ∃ written, escape c = written := ⟨_, rfl⟩
  have unfolded := eq
  simp only [escape] at unfolded
  split at unfolded
  case isTrue is => exact .letter '0' (eq.trans unfolded.symm) (by simp [lettered, is])
  split at unfolded
  case isTrue is => exact .letter 't' (eq.trans unfolded.symm) (by simp [lettered, is])
  split at unfolded
  case isTrue is => exact .letter 'r' (eq.trans unfolded.symm) (by simp [lettered, is])
  split at unfolded
  case isTrue is => exact .letter 'n' (eq.trans unfolded.symm) (by simp [lettered, is])
  case isFalse line =>
    split at unfolded
    case isTrue is =>
      refine .letter c (eq.trans unfolded.symm) ?_
      rcases (by simpa using is : c = '\\' ∨ c = '"') with rfl | rfl <;> simp [lettered]
    case isFalse isNot =>
      have unmarked : c ≠ '\\' := by
        rintro rfl
        exact isNot rfl
      split at unfolded
      case isTrue => exact .plain (eq.trans unfolded.symm) unmarked line
      split at unfolded
      case isTrue => exact .digits (eq.trans unfolded.symm)
      case isFalse => exact .plain (eq.trans unfolded.symm) unmarked line

theorem escape_injective {c c' : Char} {rest rest' : List Char}
    (same : escape c ++ rest = escape c' ++ rest') : c = c' ∧ rest = rest' := by
  cases escape_escaped c with
  | plain eq unmarked =>
    rw [eq] at same
    cases escape_escaped c' with
    | plain eq' =>
      rw [eq'] at same
      exact List.cons.inj same
    | letter _ eq' | digits eq' =>
      rw [eq'] at same
      exact absurd (List.cons.inj same).1 unmarked
  | letter letter eq known =>
    rw [eq] at same
    cases escape_escaped c' with
    | plain eq' unmarked' =>
      rw [eq'] at same
      exact absurd (List.cons.inj same).1.symm unmarked'
    | letter letter' eq' known' =>
      rw [eq'] at same
      obtain ⟨rfl, rfl⟩ := List.cons.inj (List.cons.inj same).2
      exact ⟨lettered_injective _ known _ known' rfl, rfl⟩
    | digits eq' =>
      rw [eq'] at same
      exact absurd (List.cons.inj (List.cons.inj same).2).1 (lettered_ne_digits _ known)
  | digits eq =>
    rw [eq] at same
    cases escape_escaped c' with
    | plain eq' unmarked' =>
      rw [eq'] at same
      exact absurd (List.cons.inj same).1.symm unmarked'
    | letter letter' eq' known' =>
      rw [eq'] at same
      exact absurd (List.cons.inj (List.cons.inj same).2).1.symm (lettered_ne_digits _ known')
    | digits eq' =>
      rw [eq'] at same
      simp only [List.cons_append, List.append_assoc, List.cons.injEq, true_and] at same
      obtain ⟨digits, rfl⟩ := ended_injective (notMem_toDigits (by decide) _)
        (notMem_toDigits (by decide) _) same
      exact ⟨Char.toNat_inj.mp (toDigits_injective (by decide) (by decide) digits), rfl⟩

theorem flatMap_escape_injective {cs cs' : List Char}
    (same : cs.flatMap escape = cs'.flatMap escape) : cs = cs' := by
  have nonempty (c : Char) : escape c ≠ [] := by
    cases escape_escaped c with
    | plain eq | letter _ eq | digits eq => simp [eq]
  induction cs generalizing cs' with
  | nil =>
    cases cs' with
    | nil => rfl
    | cons c' rest' => exact absurd (List.append_eq_nil_iff.mp same.symm).1 (nonempty c')
  | cons c rest ih =>
    cases cs' with
    | nil => exact absurd (List.append_eq_nil_iff.mp same).1 (nonempty c)
    | cons c' rest' =>
      obtain ⟨rfl, tails⟩ := escape_injective same
      rw [ih tails]

theorem quoted_injective : Function.Injective quoted := by
  intro text text' same
  have chars := congrArg String.toList same
  rw [quoted, quoted, String.toList_ofList, String.toList_ofList] at chars
  exact String.toList_inj.mp
    (flatMap_escape_injective (List.append_cancel_right (List.cons.inj chars).2))

theorem quoted_line (text : String) : '\n' ∉ (quoted text).toList := by
  rw [quoted, String.toList_ofList, List.mem_cons, List.mem_append, List.mem_flatMap]
  rintro (wrong | ⟨c, -, member⟩ | wrong)
  · cases wrong
  · cases escape_escaped c with
    | plain eq _ line =>
      rw [eq, List.mem_singleton] at member
      exact line member.symm
    | letter letter eq known =>
      simp only [eq, List.mem_cons, List.not_mem_nil, or_false] at member
      rcases member with wrong | wrong
      · cases wrong
      · exact lettered_line _ known wrong.symm
    | digits eq =>
      simp only [eq, List.mem_cons, List.mem_append, List.not_mem_nil, or_false] at member
      rcases member with wrong | wrong | wrong | member | wrong
      case inr.inr.inr.inl => exact notMem_toDigits (by decide) _ member
      all_goals cases wrong
  · cases List.mem_singleton.mp wrong

end LetChain.Text
