import LetChain.Proofs.Number.Legible
import LetChain.Proofs.Stateful
import LetChain.Proofs.Syntax.Spelled
import LetChain.Proofs.Text.Legible
import LetChain.Syntax.Outline

/-! An outline loses nothing of a module but the places that it does not show. Lines end in line
breaks, indentation tells which lines belong to a node and where each of its parts begins, and a
line begins with a word that tells what it says. -/

namespace LetChain

/-! ### What an outline shows -/

mutual

/-- The tree without the places of functions, records, types and the names that these, lets, loops
and members introduce or select. -/
def Expr.shown : Expr .parsed → Expr .parsed
  | .range first limit none span _ => .range first.shown limit.shown none span ()
  | .range first limit (some step) span _ =>
    .range first.shown limit.shown (some step.shown) span ()
  | .binary op lhs rhs span _ => .binary op lhs.shown rhs.shown span ()
  | .call name args _ span _ => .call name (Expr.allShown args) () span ()
  | .construct name args _ span _ => .construct name (Expr.allShown args) () span ()
  | .member base field _ span _ => .member base.shown field.bare () span ()
  | .ifElse cond yes no span _ => .ifElse cond.shown yes.shown no.shown span ()
  | .ifOnly cond yes span _ => .ifOnly cond.shown yes.shown span ()
  | .foreach element elementType source body _ span _ =>
    .foreach element.bare elementType.bare source.shown body.shown () span ()
  | .block body _ => .block body.shown ()
  | leaf => leaf

def Expr.allShown : List (Expr .parsed) → List (Expr .parsed)
  | [] => []
  | first :: rest => first.shown :: Expr.allShown rest

def Block.shown : Block .parsed → Block .parsed
  | ⟨stmts, span, _⟩ => ⟨Stmt.allShown stmts, span, ()⟩

def Stmt.shown : Stmt .parsed → Stmt .parsed
  | .letIn name type first chained span _ =>
    .letIn name.bare type.bare first.shown (Expr.allShown chained) span ()
  | .func name params returns body _ _ =>
    .func name.bare (params.map Binding.bare) returns.bare body.shown default ()
  | .record name fields _ _ => .record name.bare (fields.map Binding.bare) default ()
  | .expr value => .expr value.shown

def Stmt.allShown : List (Stmt .parsed) → List (Stmt .parsed)
  | [] => []
  | first :: rest => first.shown :: Stmt.allShown rest

end

def Module.shown (m : Module .parsed) : Module .parsed := ⟨Stmt.allShown m.stmts⟩

namespace Text

section

variable {α : Type} {p : α → Bool}

theorem front_injective {part part' rest rest' : List α} (all : ∀ a ∈ part, p a = true)
    (all' : ∀ a ∈ part', p a = true) (stops : ∀ a ∈ rest.head?, p a = false)
    (stops' : ∀ a ∈ rest'.head?, p a = false) (same : part ++ rest = part' ++ rest') :
    part = part' ∧ rest = rest' := by
  have front {part rest : List α} (all : ∀ a ∈ part, p a = true)
      (stops : ∀ a ∈ rest.head?, p a = false) : (part ++ rest).takeWhile p = part := by
    rw [List.takeWhile_append_of_pos all]
    cases rest with
    | nil => simp
    | cons first others => simp [stops first rfl]
  have parts : part = part' := by rw [← front all stops, same, front all' stops']
  subst parts
  exact ⟨rfl, List.append_cancel_left same⟩

theorem flatten_injective_of_head {parts parts' : List (List α)}
    (heads : ∀ part ∈ parts, ∃ first rest, part = first :: rest ∧ p first = false ∧
      ∀ a ∈ rest, p a = true)
    (heads' : ∀ part ∈ parts', ∃ first rest, part = first :: rest ∧ p first = false ∧
      ∀ a ∈ rest, p a = true) (same : parts.flatten = parts'.flatten) : parts = parts' := by
  have starts {others : List (List α)} (heads : ∀ part ∈ others, ∃ first rest,
      part = first :: rest ∧ p first = false ∧ ∀ a ∈ rest, p a = true) :
      ∀ a ∈ others.flatten.head?, p a = false := by
    cases others with
    | nil => simp
    | cons part others =>
      obtain ⟨first, rest, rfl, isHead, -⟩ := heads part List.mem_cons_self
      rintro a ⟨⟩
      exact isHead
  induction parts generalizing parts' with
  | nil =>
    cases parts' with
    | nil => rfl
    | cons part' others' =>
      obtain ⟨first, rest, rfl, -⟩ := heads' part' List.mem_cons_self
      cases same
  | cons part others ih =>
    obtain ⟨⟨first, rest, rfl, -, body⟩, later⟩ := List.forall_mem_cons.mp heads
    cases parts' with
    | nil => cases same
    | cons part' others' =>
      obtain ⟨⟨first', rest', rfl, -, body'⟩, later'⟩ := List.forall_mem_cons.mp heads'
      simp only [List.flatten_cons, List.cons_append] at same
      obtain ⟨rfl, tails⟩ := List.cons.inj same
      obtain ⟨rfl, rests⟩ := front_injective body body' (starts later) (starts later') tails
      rw [ih later later' rests]

end

end Text

theorem Span.text_toList (span : Span) : span.text.toList =
    (Nat.repr span.lo).toList ++ '.' :: '.' :: (Nat.repr span.hi).toList := by
  have plain : span.text = Nat.repr span.lo ++ ".." ++ Nat.repr span.hi := rfl
  rw [plain]
  simp

theorem Span.text_injective : Function.Injective Span.text := by
  intro span span' same
  have chars := congrArg String.toList same
  rw [text_toList, text_toList] at chars
  obtain ⟨lo, rest⟩ := Text.ended_injective (Text.notMem_repr rfl) (Text.notMem_repr rfl) chars
  have sameLo := Text.repr_injective lo
  have sameHi := Text.repr_injective (List.cons.inj rest).2
  obtain ⟨lo, length, bounded⟩ := span
  obtain ⟨lo', length', bounded'⟩ := span'
  simp only [Span.hi] at sameLo sameHi
  obtain rfl := sameLo
  obtain rfl : length = length' := by omega
  rfl

namespace Outline

/-! ### Words of a line -/

theorem place_toList (span : Span) : (place span "").toList =
    ' ' :: '(' :: (span.text.toList ++ [')']) := by
  simp [place]

theorem place_injective {text text' : String} {span span' : Span}
    (same : text ++ place span "" = text' ++ place span' "") : text = text' ∧ span = span' := by
  have free (span : Span) : '(' ∉ span.text.toList.reverse := by
    rw [List.mem_reverse, Span.text_toList, List.mem_append, List.mem_cons, List.mem_cons]
    rintro (digit | wrong | wrong | digit)
    · exact Text.notMem_repr rfl digit
    · cases wrong
    · cases wrong
    · exact Text.notMem_repr rfl digit
  have chars := congrArg (fun text => text.toList.reverse) same
  simp only [String.toList_append, place_toList, List.reverse_append, List.reverse_cons,
    List.append_assoc, List.reverse_nil, List.nil_append, List.cons_append, List.cons.injEq,
    true_and] at chars
  obtain ⟨places, texts⟩ := Text.ended_injective (free span) (free span') chars
  refine ⟨String.toList_inj.mp ?_, Span.text_injective (String.toList_inj.mp ?_)⟩
  · exact List.reverse_injective (List.cons.inj texts).2
  · exact List.reverse_injective places

def Stops (rest : List Char) : Prop := ∀ c ∈ rest.head?, Lexeme.isWordPart c = false ∧ c ≠ '<'

theorem stops_cons {c : Char} {rest : List Char} (other : Lexeme.isWordPart c = false ∧ c ≠ '<') :
    Stops (c :: rest) := by
  rintro _ ⟨⟩
  exact other

theorem name_injective {name name' : Ident} {rest rest' : List Char}
    (isName : Text.isName name.text = true) (isName' : Text.isName name'.text = true)
    (stops : ∀ c ∈ rest.head?, Lexeme.isWordPart c = false)
    (stops' : ∀ c ∈ rest'.head?, Lexeme.isWordPart c = false)
    (same : name.text.toList ++ rest = name'.text.toList ++ rest') :
    name.bare = name'.bare ∧ rest = rest' := by
  obtain ⟨texts, rests⟩ := Text.front_injective (fun _ => Text.isName_parts isName)
    (fun _ => Text.isName_parts isName') stops stops' same
  exact ⟨by rw [Ident.bare, Ident.bare, String.toList_inj.mp texts], rests⟩

def applied : List TypeRef → List Char
  | [] => []
  | first :: rest => '<' :: ((typeRef first).toList ++ ((moreTypes rest).toList ++ ['>']))

theorem typeRef_toList (name : Ident) (args : List TypeRef) (span : Span) :
    (typeRef ⟨name, args, span⟩).toList = name.text.toList ++ applied args := by
  cases args <;> simp [typeRef, applied]

theorem moreTypes_cons_toList (type : TypeRef) (rest : List TypeRef) :
    (moreTypes (type :: rest)).toList =
      ',' :: ' ' :: ((typeRef type).toList ++ (moreTypes rest).toList) := by
  simp [moreTypes]

theorem stops_moreTypes (types : List TypeRef) (rest : List Char) :
    Stops ((moreTypes types).toList ++ '>' :: rest) := by
  cases types with
  | nil => exact stops_cons (by decide)
  | cons =>
    rw [moreTypes_cons_toList]
    exact stops_cons (by decide)

mutual

theorem typeRef_injective : ∀ (type type' : TypeRef) {rest rest' : List Char}, type.Writable →
    type'.Writable → Stops rest → Stops rest' →
    (typeRef type).toList ++ rest = (typeRef type').toList ++ rest' →
    type.bare = type'.bare ∧ rest = rest'
  | ⟨name, args, _⟩, ⟨name', args', _⟩, _, _, writable, writable', stops, stops', same => by
    rw [typeRef_toList, typeRef_toList, List.append_assoc, List.append_assoc] at same
    have ends {args : List TypeRef} {rest : List Char} (stops : Stops rest) :
        ∀ c ∈ (applied args ++ rest).head?, Lexeme.isWordPart c = false := by
      cases args with
      | nil => exact fun c member => (stops c member).1
      | cons =>
        rintro _ ⟨⟩
        decide
    obtain ⟨names, tails⟩ := name_injective writable.1 writable'.1 (ends stops) (ends stops') same
    obtain ⟨args, rests⟩ := applied_injective args args' writable.2 writable'.2 stops stops' tails
    rw [TypeRef.bare, TypeRef.bare, names, args]
    exact ⟨rfl, rests⟩

theorem applied_injective : ∀ (args args' : List TypeRef) {rest rest' : List Char},
    TypeRef.AllWritable args → TypeRef.AllWritable args' → Stops rest → Stops rest' →
    applied args ++ rest = applied args' ++ rest' →
    TypeRef.allBare args = TypeRef.allBare args' ∧ rest = rest'
  | [], [], _, _, _, _, _, _, same => ⟨rfl, same⟩
  | [], _ :: _, _, _, _, _, stops, _, same => by
    obtain rfl := same
    exact absurd rfl (stops _ rfl).2
  | _ :: _, [], _, _, _, _, _, stops', same => by
    obtain rfl := same
    exact absurd rfl (stops' _ rfl).2
  | first :: others, first' :: others', _, _, writable, writable', _, _, same => by
    simp only [applied, List.cons_append, List.append_assoc, List.nil_append, List.cons.injEq,
      true_and] at same
    obtain ⟨firsts, tails⟩ := typeRef_injective first first' writable.1 writable'.1
      (stops_moreTypes _ _) (stops_moreTypes _ _) same
    obtain ⟨others, rests⟩ := moreTypes_injective others others' writable.2 writable'.2 tails
    rw [TypeRef.allBare, TypeRef.allBare, firsts, others]
    exact ⟨rfl, rests⟩

theorem moreTypes_injective : ∀ (types types' : List TypeRef) {rest rest' : List Char},
    TypeRef.AllWritable types → TypeRef.AllWritable types' →
    (moreTypes types).toList ++ '>' :: rest = (moreTypes types').toList ++ '>' :: rest' →
    TypeRef.allBare types = TypeRef.allBare types' ∧ rest = rest'
  | [], [], _, _, _, _, same => ⟨rfl, (List.cons.inj same).2⟩
  | [], _ :: _, _, _, _, _, same => by
    rw [moreTypes_cons_toList] at same
    cases same
  | _ :: _, [], _, _, _, _, same => by
    rw [moreTypes_cons_toList] at same
    cases same
  | type :: others, type' :: others', _, _, writable, writable', same => by
    simp only [moreTypes_cons_toList, List.cons_append, List.append_assoc, List.cons.injEq,
      true_and] at same
    obtain ⟨firsts, tails⟩ := typeRef_injective type type' writable.1 writable'.1
      (stops_moreTypes _ _) (stops_moreTypes _ _) same
    obtain ⟨others, rests⟩ := moreTypes_injective others others' writable.2 writable'.2 tails
    rw [TypeRef.allBare, TypeRef.allBare, firsts, others]
    exact ⟨rfl, rests⟩

end

theorem binding_toList (b : Binding .parsed) :
    (binding b).toList = b.name.text.toList ++ ':' :: ' ' :: (typeRef b.type).toList := by
  simp [binding]

theorem binding_injective {b b' : Binding .parsed} {rest rest' : List Char} (writable : b.Writable)
    (writable' : b'.Writable) (stops : Stops rest) (stops' : Stops rest')
    (same : (binding b).toList ++ rest = (binding b').toList ++ rest') :
    b.bare = b'.bare ∧ rest = rest' := by
  simp only [binding_toList, List.append_assoc, List.cons_append] at same
  obtain ⟨names, tails⟩ := name_injective writable.1 writable'.1 (by simp; decide)
    (by simp; decide) same
  simp only [List.cons.injEq, true_and] at tails
  obtain ⟨types, rests⟩ := typeRef_injective b.type b'.type writable.2 writable'.2 stops stops'
    tails
  exact ⟨by rw [Binding.bare, Binding.bare, names, types], rests⟩

def moreBindings (bs : List (Binding .parsed)) : List Char :=
  bs.flatMap fun b => ',' :: ' ' :: (binding b).toList

theorem intercalate_binding_toList (b : Binding .parsed) (rest : List (Binding .parsed)) :
    (String.intercalate ", " ((b :: rest).map binding)).toList =
      (binding b).toList ++ moreBindings rest := by
  induction rest generalizing b with
  | nil => simp [moreBindings]
  | cons next rest ih =>
    have later := ih next
    simp only [List.map_cons] at later ⊢
    rw [String.intercalate_cons_cons, String.toList_append, String.toList_append, later]
    simp [moreBindings]

theorem stops_moreBindings (bs : List (Binding .parsed)) (rest : List Char) :
    Stops (moreBindings bs ++ ')' :: rest) := by
  cases bs with
  | nil => exact stops_cons (by decide)
  | cons => exact stops_cons (by decide)

theorem moreBindings_injective {rest rest' : List Char} : ∀ bs bs' : List (Binding .parsed),
    (∀ b ∈ bs, b.Writable) → (∀ b ∈ bs', b.Writable) →
    moreBindings bs ++ ')' :: rest = moreBindings bs' ++ ')' :: rest' →
    bs.map Binding.bare = bs'.map Binding.bare ∧ rest = rest'
  | [], [], _, _, same => ⟨rfl, (List.cons.inj same).2⟩
  | [], _ :: _, _, _, same | _ :: _, [], _, _, same => by cases same
  | b :: others, b' :: others', writable, writable', same => by
    simp only [moreBindings, List.flatMap_cons, List.cons_append, List.append_assoc,
      List.cons.injEq, true_and] at same
    obtain ⟨isFirst, areOthers⟩ := List.forall_mem_cons.mp writable
    obtain ⟨isFirst', areOthers'⟩ := List.forall_mem_cons.mp writable'
    obtain ⟨firsts, tails⟩ := binding_injective isFirst isFirst' (stops_moreBindings _ _)
      (stops_moreBindings _ _) same
    obtain ⟨others, rests⟩ := moreBindings_injective others others' areOthers areOthers' tails
    rw [List.map_cons, List.map_cons, firsts, others]
    exact ⟨rfl, rests⟩

theorem bindings_injective {bs bs' : List (Binding .parsed)} {rest rest' : List Char}
    (writable : ∀ b ∈ bs, b.Writable) (writable' : ∀ b ∈ bs', b.Writable)
    (same : (String.intercalate ", " (bs.map binding)).toList ++ ')' :: rest =
      (String.intercalate ", " (bs'.map binding)).toList ++ ')' :: rest') :
    bs.map Binding.bare = bs'.map Binding.bare ∧ rest = rest' := by
  have apart {b : Binding .parsed} {rest rest' : List Char} (writable : b.Writable) :
      (binding b).toList ++ rest ≠ ')' :: rest' := by
    intro same
    have isPart (c : Char) (member : c ∈ b.name.text.toList) := Text.isName_parts writable.1 member
    have isName := writable.1
    rw [Text.isName] at isName
    rw [binding_toList] at same
    cases chars : b.name.text.toList with
    | nil => simp [chars] at isName
    | cons c others =>
      rw [chars] at same isPart
      obtain ⟨rfl, -⟩ := List.cons.inj same
      exact absurd (isPart _ List.mem_cons_self) (by decide)
  cases bs with
  | nil =>
    cases bs' with
    | nil => exact ⟨rfl, (List.cons.inj same).2⟩
    | cons b' others' =>
      rw [intercalate_binding_toList, List.append_assoc] at same
      exact absurd same.symm (apart (writable' b' List.mem_cons_self))
  | cons b others =>
    rw [intercalate_binding_toList, List.append_assoc] at same
    cases bs' with
    | nil => exact absurd same (apart (writable b List.mem_cons_self))
    | cons b' others' =>
      -- Both lists look like what follows a binding before them.
      refine moreBindings_injective (b :: others) (b' :: others') writable writable' ?_
      rw [intercalate_binding_toList, List.append_assoc] at same
      simp only [moreBindings, List.flatMap_cons, List.cons_append, List.append_assoc,
        List.cons.injEq, true_and] at same ⊢
      exact same

/-! ### Lines and their depth -/

def indent (line : String) : Nat := (line.toList.takeWhile (· = ' ')).length

structure Plain (text : String) : Prop where
  starts : ∀ c ∈ text.toList.head?, c ≠ ' '
  line : '\n' ∉ text.toList

theorem line_toList (depth : Nat) (text : String) :
    (line depth text).toList = List.replicate (2 * depth) ' ' ++ text.toList := by
  simp [line]

theorem indent_line {text : String} (plain : Plain text) (depth : Nat) :
    indent (line depth text) = 2 * depth := by
  have stop : text.toList.takeWhile (· = ' ') = [] := by
    cases chars : text.toList with
    | nil => rfl
    | cons c rest => simp [plain.starts c (by simp [chars])]
  rw [indent, line_toList, List.takeWhile_append_of_pos (by simp), stop]
  simp

def Rows (depth : Nat) (lines : List String) : Prop :=
  ∀ line ∈ lines, 2 * depth ≤ indent line ∧ '\n' ∉ line.toList

/-- A line and what belongs to it. -/
def Node (depth : Nat) (lines : List String) : Prop :=
  ∃ text rest, lines = line depth text :: rest ∧ Plain text ∧ Rows (depth + 1) rest

theorem Node.rows {depth : Nat} {lines : List String} (node : Node depth lines) :
    Rows depth lines := by
  obtain ⟨text, rest, rfl, plain, rows⟩ := node
  refine List.forall_mem_cons.mpr ⟨⟨(indent_line plain depth).ge, ?_⟩, fun line member => ?_⟩
  · rw [line_toList, List.mem_append, not_or]
    exact ⟨by simp, plain.line⟩
  · have := rows line member
    exact ⟨by omega, this.2⟩

theorem rows_flatten {depth : Nat} {parts : List (List String)}
    (nodes : ∀ part ∈ parts, Node depth part) : Rows depth parts.flatten := by
  intro line member
  obtain ⟨part, isPart, member⟩ := List.mem_flatten.mp member
  exact (nodes part isPart).rows line member

theorem parts_injective {depth : Nat} {parts parts' : List (List String)}
    (nodes : ∀ part ∈ parts, Node depth part) (nodes' : ∀ part ∈ parts', Node depth part)
    (same : parts.flatten = parts'.flatten) : parts = parts' := by
  have heads {part : List String} (node : Node depth part) : ∃ first rest, part = first :: rest ∧
      decide (2 * (depth + 1) ≤ indent first) = false ∧
      ∀ line ∈ rest, decide (2 * (depth + 1) ≤ indent line) = true := by
    obtain ⟨text, rest, rfl, plain, rows⟩ := node
    refine ⟨_, rest, rfl, ?_, fun line member => decide_eq_true (rows line member).1⟩
    rw [indent_line plain]
    exact decide_eq_false (by omega)
  exact Text.flatten_injective_of_head (fun part member => heads (nodes part member))
    (fun part member => heads (nodes' part member)) same

theorem word_injective {word word' text text' : String} (isWord : ' ' ∉ word.toList)
    (isWord' : ' ' ∉ word'.toList) (blank : ∀ c ∈ text.toList.head?, c = ' ')
    (blank' : ∀ c ∈ text'.toList.head?, c = ' ') (same : word ++ text = word' ++ text') :
    word = word' ∧ text = text' := by
  have chars := congrArg String.toList same
  rw [String.toList_append, String.toList_append] at chars
  have free {word : String} (isWord : ' ' ∉ word.toList) :
      ∀ c ∈ word.toList, (c != ' ') = true := by
    intro c member
    simp only [bne_iff_ne]
    rintro rfl
    exact isWord member
  have stops {text : String} (blank : ∀ c ∈ text.toList.head?, c = ' ') :
      ∀ c ∈ text.toList.head?, (c != ' ') = false := by
    intro c member
    simp [blank c member]
  obtain ⟨words, texts⟩ := Text.front_injective (free isWord) (free isWord') (stops blank)
    (stops blank') chars
  exact ⟨String.toList_inj.mp words, String.toList_inj.mp texts⟩

/-! ### Words that lines begin with -/

inductive Kind where
  | number | string | bool | named | binary | range | call | construct | member | cond | foreach
  | block | letIn | func | record | chained | field

namespace Kind

def word : Kind → String
  | number => "number"
  | string => "string"
  | bool => "bool"
  | named => "named"
  | binary => "binary"
  | range => "range"
  | call => "call"
  | construct => "construct"
  | member => "member"
  | cond => "if"
  | foreach => "foreach"
  | block => "block"
  | letIn => "let"
  | func => "func"
  | record => "type"
  | chained => "where"
  | field => "field"

def all : List Kind :=
  [number, string, bool, named, binary, range, call, construct, member, cond, foreach, block, letIn,
    func, record, chained, field]

theorem mem_all (kind : Kind) : kind ∈ all := by
  cases kind <;> simp [all]

theorem word_injective : Function.Injective word := by
  have distinct : (all.map word).Nodup := by decide +kernel
  exact fun kind kind' same => List.inj_on_of_nodup_map distinct kind.mem_all kind'.mem_all same

theorem isLower_word (kind : Kind) : kind.word ≠ "" ∧ ∀ c ∈ kind.word.toList, c.isLower := by
  cases kind <;> exact ⟨by simp [word], by simp [word]⟩

theorem notMem_word (kind : Kind) {c : Char} (other : c.isLower = false) :
    c ∉ kind.word.toList := by
  intro member
  rw [kind.isLower_word.2 c member] at other
  cases other

end Kind

/-! ### Lines of a tree -/

/-- What has a line of its own, with the lines that belong to it. Expressions and blocks look like
the statements that they are. -/
inductive Item where
  | stmt (s : Stmt .parsed)
  | chained (body : Expr .parsed)
  | field (b : Binding .parsed)

abbrev Item.expr (e : Expr .parsed) : Item := .stmt (.expr e)

abbrev Item.block (body : Block .parsed) : Item := .expr (.block body ())

end Outline

open Outline

namespace Expr

def kind : Expr .parsed → Kind
  | .number .. => .number
  | .string .. => .string
  | .bool .. => .bool
  | .named .. => .named
  | .binary .. => .binary
  | .range .. => .range
  | .call .. => .call
  | .construct .. => .construct
  | .member .. => .member
  | .ifElse .. | .ifOnly .. => .cond
  | .foreach .. => .foreach
  | .block .. => .block

def detail : Expr .parsed → String
  | .number value _ _ => " " ++ Number.text value
  | .string value _ _ => " " ++ Text.quoted value
  | .bool value _ _ => if value then " true" else " false"
  | .named name _ _ _ | .call name _ _ _ _ | .construct name _ _ _ _ | .member _ name _ _ _ =>
    " " ++ name.text
  | .binary op _ _ _ _ => " " ++ op.name
  | .foreach element elementType _ _ _ _ _ => " " ++ element.text ++ ": " ++ typeRef elementType
  | .range .. | .ifElse .. | .ifOnly .. | .block .. => ""

def items : Expr .parsed → List Item
  | .number .. | .string .. | .bool .. | .named .. => []
  | .binary _ lhs rhs _ _ => [.expr lhs, .expr rhs]
  | .range first limit none _ _ => [.expr first, .expr limit]
  | .range first limit (some step) _ _ => [.expr first, .expr limit, .expr step]
  | .call _ args _ _ _ | .construct _ args _ _ _ => args.map .expr
  | .member base _ _ _ _ => [.expr base]
  | .ifElse cond yes no _ _ => [.expr cond, .block yes, .block no]
  | .ifOnly cond yes _ _ => [.expr cond, .block yes]
  | .foreach _ _ source body _ _ _ => [.expr source, .block body]
  | .block body _ => body.stmts.map .stmt

end Expr

namespace Outline.Item

def lines (depth : Nat) : Item → List String
  | .stmt s => Outline.stmt depth s
  | .chained body => line depth "where" :: Outline.expr (depth + 1) body
  | .field b => [line depth ("field " ++ binding b)]

def kind : Item → Kind
  | .stmt (.letIn ..) => .letIn
  | .stmt (.func ..) => .func
  | .stmt (.record ..) => .record
  | .stmt (.expr e) => e.kind
  | .chained _ => .chained
  | .field _ => .field

def detail : Item → String
  | .stmt (.letIn name type _ _ span _) =>
    " " ++ name.text ++ ": " ++ typeRef type ++ place span ""
  | .stmt (.func name params returns _ _ _) =>
    " " ++ name.text ++ "(" ++ String.intercalate ", " (params.map binding) ++ ") -> " ++
      typeRef returns
  | .stmt (.record name _ _ _) => " " ++ name.text
  | .stmt (.expr e) => e.detail ++ place e.span ""
  | .chained _ => ""
  | .field b => " " ++ binding b

def parts : Item → List Item
  | .stmt (.letIn _ _ first more _ _) => .expr first :: more.map .chained
  | .stmt (.func _ _ _ body _ _) => [.block body]
  | .stmt (.record _ fields _ _) => fields.map .field
  | .stmt (.expr e) => e.items
  | .chained body => [.expr body]
  | .field _ => []

theorem exprs_eq (depth : Nat) (exprs : List (Expr .parsed)) :
    Outline.exprs depth exprs = ((exprs.map Item.expr).map (lines depth)).flatten := by
  induction exprs with
  | nil => rfl
  | cons first rest ih => simp [Outline.exprs, Outline.stmt, lines, ih]

theorem stmts_eq (depth : Nat) (stmts : List (Stmt .parsed)) :
    Outline.stmts depth stmts = ((stmts.map Item.stmt).map (lines depth)).flatten := by
  induction stmts with
  | nil => rfl
  | cons first rest ih => simp [Outline.stmts, lines, ih]

theorem chained_eq (depth : Nat) (exprs : List (Expr .parsed)) :
    Outline.chained depth exprs = ((exprs.map Item.chained).map (lines depth)).flatten := by
  induction exprs with
  | nil => rfl
  | cons first rest ih => simp [Outline.chained, lines, ih]

theorem fields_eq (depth : Nat) (fields : List (Binding .parsed)) :
    (fields.map fun field => line depth ("field " ++ binding field)) =
      ((fields.map Item.field).map (lines depth)).flatten := by
  induction fields with
  | nil => rfl
  | cons first rest ih => simp [lines, ih]

theorem expr_eq (depth : Nat) (e : Expr .parsed) : Outline.expr depth e =
    line depth (e.kind.word ++ (e.detail ++ place e.span "")) ::
      (e.items.map (lines (depth + 1))).flatten := by
  cases e with
  | bool value =>
    cases value <;>
      simp [Outline.expr, Expr.kind, Kind.word, Expr.detail, Expr.items, Expr.span, PhaseText.ty,
        ← String.append_assoc]
  | range first limit step =>
    cases step <;>
      simp [Outline.expr, Outline.stmt, Expr.kind, Kind.word, Expr.detail, Expr.items, lines,
        Expr.span, PhaseText.ty]
  | block body =>
    obtain ⟨stmts, span, ty⟩ := body
    simp only [Outline.expr, Outline.block, Expr.kind, Kind.word, Expr.detail, Expr.items,
      Expr.span, PhaseText.blockTy, stmts_eq, String.empty_append]
  | call | construct =>
    simp only [Outline.expr, exprs_eq, Expr.kind, Kind.word, Expr.detail, Expr.items, Expr.span,
      PhaseText.ty, ← String.append_assoc, String.reduceAppend]
  | _ =>
    simp [Outline.expr, Outline.stmt, Expr.kind, Kind.word, Expr.detail, Expr.items, lines,
      Expr.span, PhaseText.ty, ← String.append_assoc]

theorem lines_eq (depth : Nat) (item : Item) : item.lines depth =
    line depth (item.kind.word ++ item.detail) :: (item.parts.map (lines (depth + 1))).flatten := by
  cases item with
  | stmt s =>
    cases s with
    | expr e => exact expr_eq depth e
    | letIn =>
      simp [lines, Outline.stmt, kind, Kind.word, detail, parts, chained_eq,
        ← String.append_assoc]
    | func =>
      simp [lines, Outline.stmt, Outline.expr, kind, Kind.word, detail, parts,
        ← String.append_assoc]
    | record =>
      simp only [lines, Outline.stmt, fields_eq, kind, Kind.word, detail, parts,
        ← String.append_assoc, String.reduceAppend]
  | chained => simp [lines, Outline.stmt, kind, Kind.word, detail, parts]
  | field => simp [lines, kind, Kind.word, detail, parts, ← String.append_assoc]

/-! ### Induction on the parts -/

section Induction

variable {motive : Item → Prop}

mutual

theorem of_expr (step : ∀ item, (∀ part ∈ item.parts, motive part) → motive item) :
    ∀ e : Expr .parsed, motive (.expr e)
  | .number .. | .string .. | .bool .. | .named .. => step _ (by simp [parts, Expr.items])
  | .binary _ lhs rhs _ _ =>
    step _ (by simp [parts, Expr.items, of_expr step lhs, of_expr step rhs])
  | .range first limit none _ _ =>
    step _ (by simp [parts, Expr.items, of_expr step first, of_expr step limit])
  | .range first limit (some last) _ _ =>
    step _ (by
      simp [parts, Expr.items, of_expr step first, of_expr step limit, of_expr step last])
  | .call _ args _ _ _ | .construct _ args _ _ _ =>
    step _ (List.forall_mem_map.mpr (of_exprs step args))
  | .member base _ _ _ _ => step _ (by simp [parts, Expr.items, of_expr step base])
  | .ifElse cond yes no _ _ =>
    step _ (by simp [parts, Expr.items, of_expr step cond, of_block step yes, of_block step no])
  | .ifOnly cond yes _ _ =>
    step _ (by simp [parts, Expr.items, of_expr step cond, of_block step yes])
  | .foreach _ _ source body _ _ _ =>
    step _ (by simp [parts, Expr.items, of_expr step source, of_block step body])
  | .block body _ => of_block step body

theorem of_exprs (step : ∀ item, (∀ part ∈ item.parts, motive part) → motive item) :
    ∀ exprs : List (Expr .parsed), ∀ e ∈ exprs, motive (.expr e)
  | [] => by simp
  | first :: rest => List.forall_mem_cons.mpr ⟨of_expr step first, of_exprs step rest⟩

theorem of_block (step : ∀ item, (∀ part ∈ item.parts, motive part) → motive item) :
    ∀ body : Block .parsed, motive (.block body)
  | ⟨stmts, _, _⟩ => step _ (List.forall_mem_map.mpr (of_stmts step stmts))

theorem of_stmt (step : ∀ item, (∀ part ∈ item.parts, motive part) → motive item) :
    ∀ s : Stmt .parsed, motive (.stmt s)
  | .letIn _ _ first more _ _ => by
    refine step _ (List.forall_mem_cons.mpr ⟨of_expr step first, List.forall_mem_map.mpr ?_⟩)
    exact fun body member => step _ (by simpa [parts] using of_exprs step more body member)
  | .func _ _ _ body _ _ => step _ (by simp [parts, of_block step body])
  | .record .. => step _ (List.forall_mem_map.mpr fun _ _ => step _ (by simp [parts]))
  | .expr e => of_expr step e

theorem of_stmts (step : ∀ item, (∀ part ∈ item.parts, motive part) → motive item) :
    ∀ stmts : List (Stmt .parsed), ∀ s ∈ stmts, motive (.stmt s)
  | [] => by simp
  | first :: rest => List.forall_mem_cons.mpr ⟨of_stmt step first, of_stmts step rest⟩

end

theorem of_parts (step : ∀ item, (∀ part ∈ item.parts, motive part) → motive item)
    (item : Item) : motive item := by
  cases item with
  | stmt s => exact of_stmt step s
  | chained body => exact step _ (by simpa [parts] using of_expr step body)
  | field => exact step _ (by simp [parts])

end Induction

/-! ### Lines have no line breaks -/

open Reader.Spells (anyNumber ReadStmt ReadExpr)

def Read : Item → Prop
  | .stmt s => ReadStmt s
  | .chained body => ReadExpr body
  | .field b => b.Writable

end Item

theorem notMem_append {c : Char} {text text' : String} :
    c ∉ (text ++ text').toList ↔ c ∉ text.toList ∧ c ∉ text'.toList := by
  rw [String.toList_append, List.mem_append, not_or]

theorem name_line {name : Ident} (isName : Text.isName name.text = true) :
    '\n' ∉ name.text.toList :=
  Text.notMem_of_isName isName rfl

mutual

theorem typeRef_line : ∀ type : TypeRef, type.Writable → '\n' ∉ (typeRef type).toList
  | ⟨name, [], _⟩, writable => by
    rw [typeRef]
    exact name_line writable.1
  | ⟨name, first :: rest, _⟩, writable => by
    simp only [typeRef, notMem_append]
    exact ⟨⟨⟨⟨name_line writable.1, by decide⟩, typeRef_line first writable.2.1⟩,
      moreTypes_line rest writable.2.2⟩, by decide⟩

theorem moreTypes_line : ∀ types : List TypeRef, TypeRef.AllWritable types →
    '\n' ∉ (moreTypes types).toList
  | [], _ => by decide
  | type :: rest, writable => by
    simp only [moreTypes, notMem_append]
    exact ⟨⟨by decide, typeRef_line type writable.1⟩, moreTypes_line rest writable.2⟩

end

theorem binding_line {b : Binding .parsed} (writable : b.Writable) : '\n' ∉ (binding b).toList := by
  simp only [binding, notMem_append]
  exact ⟨⟨name_line writable.1, by decide⟩, typeRef_line b.type writable.2⟩

theorem bindings_line {bs : List (Binding .parsed)} (writable : ∀ b ∈ bs, b.Writable) :
    '\n' ∉ (String.intercalate ", " (bs.map binding)).toList := by
  cases bs with
  | nil => decide
  | cons b rest =>
    obtain ⟨isFirst, areRest⟩ := List.forall_mem_cons.mp writable
    rw [intercalate_binding_toList, List.mem_append, not_or]
    refine ⟨binding_line isFirst, ?_⟩
    rw [moreBindings, List.mem_flatMap]
    rintro ⟨b, member, wrong⟩
    simp only [List.mem_cons] at wrong
    rcases wrong with wrong | wrong | wrong
    · cases wrong
    · cases wrong
    · exact binding_line (areRest b member) wrong

theorem place_line (span : Span) : '\n' ∉ (place span "").toList := by
  rw [place_toList, Span.text_toList]
  simp only [List.mem_cons, List.mem_append, List.not_mem_nil, or_false]
  rintro (wrong | wrong | (wrong | wrong | wrong | wrong) | wrong)
  case inr.inr.inl.inl => exact Text.notMem_repr rfl wrong
  case inr.inr.inl.inr.inr.inr => exact Text.notMem_repr rfl wrong
  all_goals cases wrong


end Outline

theorem Operator.name_line (op : Operator) : '
' ∉ op.name.toList := by
  cases op <;> decide

theorem Operator.name_injective : Function.Injective Operator.name := by
  have distinct : ([or, and, eq, ne, greater, less, concat, add, sub, mul, div, rem].map
      name).Nodup := by decide +kernel
  intro op op' same
  refine List.inj_on_of_nodup_map distinct ?_ ?_ same
  · cases op <;> simp
  · cases op' <;> simp

open Reader.Spells (anyNumber)

theorem Expr.detail_line {e : Expr .parsed} (writable : e.Writable anyNumber) :
    '
' ∉ e.detail.toList := by
  have blank : '
' ∉ " ".toList := by decide
  cases e with
  | number value => exact notMem_append.mpr ⟨blank, Number.text_line value⟩
  | string value => exact notMem_append.mpr ⟨blank, Text.quoted_line value⟩
  | bool value => cases value <;> simp [Expr.detail]
  | named => exact notMem_append.mpr ⟨blank, name_line writable⟩
  | call | construct => exact notMem_append.mpr ⟨blank, name_line writable.1⟩
  | member => exact notMem_append.mpr ⟨blank, name_line writable.2⟩
  | binary op => exact notMem_append.mpr ⟨blank, op.name_line⟩
  | foreach element type =>
    simp only [Expr.detail, notMem_append]
    exact ⟨⟨⟨blank, name_line writable.1⟩, by decide⟩, typeRef_line type writable.2.1⟩
  | range | ifElse | ifOnly | block => simp [Expr.detail]

namespace Outline.Item

variable {item item' : Item}

theorem detail_line (read : item.Read) : '
' ∉ item.detail.toList := by
  have blank : '
' ∉ " ".toList := by decide
  cases item with
  | chained => simp [detail]
  | field => exact notMem_append.mpr ⟨blank, binding_line read⟩
  | stmt s =>
    cases s with
    | letIn _ type =>
      simp only [detail, notMem_append]
      obtain ⟨isName, isType, -⟩ := read.1
      exact ⟨⟨⟨⟨blank, name_line isName⟩, by decide⟩, typeRef_line type isType⟩, place_line _⟩
    | func _ params returns =>
      simp only [detail, notMem_append]
      obtain ⟨isName, areParams, isReturns, -⟩ := read.1
      exact ⟨⟨⟨⟨⟨blank, name_line isName⟩, by decide⟩, bindings_line areParams⟩, by decide⟩,
        typeRef_line returns isReturns⟩
    | record => exact notMem_append.mpr ⟨blank, name_line read.1.1⟩
    | expr => exact notMem_append.mpr ⟨Expr.detail_line read.1, place_line _⟩

theorem read_exprs {exprs : List (Expr .parsed)} (writable : Expr.AllWritable anyNumber exprs)
    (anchored : Expr.AllAnchored exprs) : ∀ e ∈ exprs, Read (.expr e) :=
  fun e member =>
    ⟨Expr.allWritable_iff.mp writable e member, Expr.allAnchored_iff.mp anchored e member⟩

theorem read_stmts {stmts : List (Stmt .parsed)} (writable : Stmt.AllWritable anyNumber stmts)
    (anchored : Stmt.AllAnchored stmts) : ∀ s ∈ stmts, Read (.stmt s) :=
  fun s member =>
    ⟨Stmt.allWritable_iff.mp writable s member, Stmt.allAnchored_iff.mp anchored s member⟩

theorem read_parts (read : item.Read) : ∀ part ∈ item.parts, part.Read := by
  cases item with
  | chained => exact List.forall_mem_singleton.mpr read
  | field => simp [parts]
  | stmt s =>
    obtain ⟨w, a⟩ := read
    cases s with
    | letIn =>
      obtain ⟨-, -, isFirst, -, areMore⟩ := w
      exact List.forall_mem_cons.mpr
        ⟨⟨isFirst, a.1⟩, List.forall_mem_map.mpr (read_exprs areMore a.2)⟩
    | func => exact List.forall_mem_singleton.mpr ⟨w.2.2.2, a⟩
    | record => exact List.forall_mem_map.mpr w.2
    | expr e =>
      cases e with
      | number | string | bool | named => simp [parts, Expr.items]
      | call | construct => exact List.forall_mem_map.mpr (read_exprs w.2 a.2)
      | block body =>
        obtain ⟨stmts, span, ty⟩ := body
        exact List.forall_mem_map.mpr (read_stmts w a)
      | member => exact List.forall_mem_singleton.mpr ⟨w.1, a⟩
      | binary => simpa [parts, Expr.items] using ⟨⟨w.1, a.1⟩, ⟨w.2, a.2⟩⟩
      | ifOnly => simpa [parts, Expr.items] using ⟨⟨w.1, a.1⟩, ⟨w.2, a.2⟩⟩
      | foreach =>
        obtain ⟨-, -, isSource, isBody⟩ := w
        simpa [parts, Expr.items] using ⟨⟨isSource, a.1⟩, ⟨isBody, a.2⟩⟩
      | ifElse =>
        simpa [parts, Expr.items] using ⟨⟨w.1, a.1⟩, ⟨w.2.1, a.2.1⟩, ⟨w.2.2, a.2.2⟩⟩
      | range _ _ step =>
        cases step with
        | none => simpa [parts, Expr.items] using ⟨⟨w.1, a.1⟩, ⟨w.2, a.2⟩⟩
        | some =>
          simpa [parts, Expr.items] using ⟨⟨w.1, a.1⟩, ⟨w.2.1, a.2.1⟩, ⟨w.2.2, a.2.2⟩⟩

theorem node (item : Item) : ∀ depth, item.Read → Node depth (item.lines depth) := by
  induction item using of_parts with
  | step item nodes =>
  intro depth read
  rw [lines_eq]
  refine ⟨_, _, rfl, ⟨fun c isHead => ?_, ?_⟩, rows_flatten (List.forall_mem_map.mpr
    fun part member => nodes part member (depth + 1) (read_parts read part member))⟩
  · rintro rfl
    have nonempty : item.kind.word.toList ≠ [] := by simpa using item.kind.isLower_word.1
    rw [String.toList_append, List.head?_append_of_ne_nil _ nonempty] at isHead
    exact item.kind.notMem_word rfl (List.mem_of_mem_head? isHead)
  · exact notMem_append.mpr ⟨item.kind.notMem_word rfl, detail_line read⟩

theorem nodes_map {items : List Item} (depth : Nat) (read : ∀ item ∈ items, item.Read) :
    ∀ part ∈ items.map (lines depth), Node depth part :=
  List.forall_mem_map.mpr fun item member => item.node depth (read item member)

/-! ### Lines determine what they show -/

theorem detail_blank (item : Item) : ∀ c ∈ item.detail.toList.head?, c = ' ' := by
  cases item with
  | chained | field => simp [detail]
  | stmt s =>
    cases s with
    | letIn | func | record => simp [detail]
    | expr e =>
      rw [detail, String.toList_append, place_toList]
      cases e with
      | bool value => cases value <;> simp [Expr.detail]
      | _ => simp [Expr.detail]

theorem lines_injective {depth : Nat} (read : item.Read) (read' : item'.Read)
    (same : item.lines depth = item'.lines depth) :
    item.kind = item'.kind ∧ item.detail = item'.detail ∧
      item.parts.map (lines (depth + 1)) = item'.parts.map (lines (depth + 1)) := by
  rw [lines_eq, lines_eq] at same
  obtain ⟨texts, rest⟩ := List.cons.inj same
  obtain ⟨words, details⟩ := word_injective (item.kind.notMem_word rfl) (item'.kind.notMem_word rfl)
    item.detail_blank item'.detail_blank ((String.append_right_inj _).mp texts)
  exact ⟨Kind.word_injective words, details, parts_injective
    (nodes_map (depth + 1) (read_parts read)) (nodes_map (depth + 1) (read_parts read')) rest⟩

end Outline.Item

namespace Outline

theorem named_injective {name name' : Ident} {span : Span} (begins : name.Begins span)
    (begins' : name'.Begins span) (same : " " ++ name.text = " " ++ name'.text) : name = name' := by
  obtain ⟨text, place⟩ := name
  obtain ⟨text', place'⟩ := name'
  obtain rfl : text = text' := (String.append_right_inj _).mp same
  rw [Ident.Begins] at begins begins'
  exact congrArg (Ident.mk text) (begins.trans begins'.symm)

theorem bare_injective {name name' : Ident} (same : " " ++ name.text = " " ++ name'.text) :
    name.bare = name'.bare := by
  rw [Ident.bare, Ident.bare, (String.append_right_inj _).mp same]

theorem typed_injective {name name' : Ident} {type type' : TypeRef}
    (isName : Text.isName name.text = true) (isName' : Text.isName name'.text = true)
    (isType : type.Writable) (isType' : type'.Writable)
    (same : " " ++ name.text ++ ": " ++ typeRef type = " " ++ name'.text ++ ": " ++ typeRef type') :
    name.bare = name'.bare ∧ type.bare = type'.bare := by
  have chars := congrArg String.toList same
  simp only [String.toList_append, List.append_assoc] at chars
  obtain ⟨names, types⟩ := name_injective isName isName' (by simp; decide) (by simp; decide)
    (List.append_cancel_left chars)
  have types := List.append_cancel_left types
  rw [← List.append_nil (typeRef type).toList, ← List.append_nil (typeRef type').toList] at types
  exact ⟨names, (typeRef_injective type type' isType isType' (by simp [Stops]) (by simp [Stops])
    types).1⟩

theorem signature_injective {name name' : Ident} {params params' : List (Binding .parsed)}
    {returns returns' : TypeRef} (isName : Text.isName name.text = true)
    (isName' : Text.isName name'.text = true) (areParams : ∀ b ∈ params, b.Writable)
    (areParams' : ∀ b ∈ params', b.Writable) (isReturns : returns.Writable)
    (isReturns' : returns'.Writable)
    (same : " " ++ name.text ++ "(" ++ String.intercalate ", " (params.map binding) ++ ") -> " ++
        typeRef returns = " " ++ name'.text ++ "(" ++
        String.intercalate ", " (params'.map binding) ++ ") -> " ++ typeRef returns') :
    name.bare = name'.bare ∧ params.map Binding.bare = params'.map Binding.bare ∧
      returns.bare = returns'.bare := by
  have chars := congrArg String.toList same
  simp only [String.toList_append, List.append_assoc] at chars
  obtain ⟨names, tails⟩ := name_injective isName isName' (by simp; decide) (by simp; decide)
    (List.append_cancel_left chars)
  obtain ⟨bindings, tails⟩ := bindings_injective areParams areParams'
    (List.append_cancel_left tails)
  have types : (typeRef returns).toList ++ [] = (typeRef returns').toList ++ [] := by
    simpa using tails
  exact ⟨names, bindings, (typeRef_injective returns returns' isReturns isReturns' (by simp [Stops])
    (by simp [Stops]) types).1⟩

end Outline

theorem Expr.allShown_eq (exprs : List (Expr .parsed)) :
    Expr.allShown exprs = exprs.map Expr.shown := by
  induction exprs with
  | nil => rfl
  | cons first rest ih => simp [Expr.allShown, ih]

theorem Stmt.allShown_eq (stmts : List (Stmt .parsed)) :
    Stmt.allShown stmts = stmts.map Stmt.shown := by
  induction stmts with
  | nil => rfl
  | cons first rest ih => simp [Stmt.allShown, ih]

namespace Outline.Item

def shown : Item → Item
  | .stmt s => .stmt s.shown
  | .chained body => .chained body.shown
  | .field b => .field b.bare

theorem shown_expr {e e' : Expr .parsed} :
    shown (.expr e) = shown (.expr e') ↔ e.shown = e'.shown := by
  simp [shown, Stmt.shown]

theorem shown_block {body body' : Block .parsed} :
    (Expr.block body ()).shown = (Expr.block body' ()).shown ↔ body.shown = body'.shown := by
  simp [Expr.shown]

theorem shown_map {α : Type} (make : α → Item) (f : α → α) (made : ∀ a, (make a).shown = make (f a))
    (injective : Function.Injective make) {all all' : List α} :
    (all.map make).map shown = (all'.map make).map shown ↔ all.map f = all'.map f := by
  have each (all : List α) : (all.map make).map shown = (all.map f).map make := by simp [made]
  rw [each, each]
  exact (List.map_injective_iff.mpr injective).eq_iff

theorem shown_exprs {exprs exprs' : List (Expr .parsed)} :
    (exprs.map Item.expr).map shown = (exprs'.map Item.expr).map shown ↔
      Expr.allShown exprs = Expr.allShown exprs' := by
  rw [Expr.allShown_eq, Expr.allShown_eq]
  exact shown_map Item.expr Expr.shown (fun _ => rfl) fun _ _ same => by simpa using same

theorem shown_stmts {stmts stmts' : List (Stmt .parsed)} :
    (stmts.map Item.stmt).map shown = (stmts'.map Item.stmt).map shown ↔
      Stmt.allShown stmts = Stmt.allShown stmts' := by
  rw [Stmt.allShown_eq, Stmt.allShown_eq]
  exact shown_map Item.stmt Stmt.shown (fun _ => rfl) fun _ _ same => by simpa using same

end Outline.Item

open Outline.Item (shown_expr shown_block shown_exprs shown_stmts)

theorem Expr.shown_eq {e e' : Expr .parsed} (w : e.Writable anyNumber) (a : e.Anchored)
    (w' : e'.Writable anyNumber) (a' : e'.Anchored) (kinds : e.kind = e'.kind)
    (details : e.detail = e'.detail) (spans : e.span = e'.span)
    (parts : e.items.map Item.shown = e'.items.map Item.shown) : e.shown = e'.shown := by
  cases e with
  | number =>
    cases e' with
    | number =>
      obtain rfl := spans
      rw [Number.text_injective ((String.append_right_inj _).mp details)]
      rfl
    | _ => cases kinds
  | string =>
    cases e' with
    | string =>
      obtain rfl := spans
      rw [Text.quoted_injective ((String.append_right_inj _).mp details)]
      rfl
    | _ => cases kinds
  | bool value =>
    cases e' with
    | bool value' =>
      obtain rfl := spans
      cases value <;> cases value' <;> first | rfl | simp [Expr.detail] at details
    | _ => cases kinds
  | named =>
    cases e' with
    | named =>
      obtain rfl := spans
      rw [named_injective a a' details]
      rfl
    | _ => cases kinds
  | binary =>
    cases e' with
    | binary =>
      obtain rfl := spans
      simp only [Expr.items, List.map_cons, List.cons.injEq, shown_expr, and_true] at parts
      rw [Expr.shown, Expr.shown, parts.1, parts.2,
        Operator.name_injective ((String.append_right_inj _).mp details)]
      rfl
    | _ => cases kinds
  | range _ _ step =>
    cases e' with
    | range _ _ step' =>
      obtain rfl := spans
      cases step <;> cases step' <;>
        simp only [Expr.items, List.map_cons, List.map_nil, List.cons.injEq, shown_expr,
          and_true, reduceCtorEq, and_false] at parts
      · rw [Expr.shown, Expr.shown, parts.1, parts.2]
        rfl
      · rw [Expr.shown, Expr.shown, parts.1, parts.2.1, parts.2.2]
        rfl
    | _ => cases kinds
  | call =>
    cases e' with
    | call =>
      obtain rfl := spans
      rw [Expr.shown, Expr.shown, named_injective a.1 a'.1 details, shown_exprs.mp parts]
      rfl
    | _ => cases kinds
  | construct =>
    cases e' with
    | construct =>
      obtain rfl := spans
      rw [Expr.shown, Expr.shown, named_injective a.1 a'.1 details, shown_exprs.mp parts]
      rfl
    | _ => cases kinds
  | member =>
    cases e' with
    | member =>
      obtain rfl := spans
      simp only [Expr.items, List.map_cons, List.cons.injEq, shown_expr, and_true] at parts
      rw [Expr.shown, Expr.shown, parts, bare_injective details]
      rfl
    | _ => cases kinds
  | ifElse =>
    cases e' with
    | ifElse =>
      obtain rfl := spans
      simp only [Expr.items, List.map_cons, List.cons.injEq, shown_expr, shown_block, and_true]
        at parts
      rw [Expr.shown, Expr.shown, parts.1, parts.2.1, parts.2.2]
      rfl
    | ifOnly => simp [Expr.items] at parts
    | _ => cases kinds
  | ifOnly =>
    cases e' with
    | ifOnly =>
      obtain rfl := spans
      simp only [Expr.items, List.map_cons, List.cons.injEq, shown_expr, shown_block, and_true]
        at parts
      rw [Expr.shown, Expr.shown, parts.1, parts.2]
      rfl
    | ifElse => simp [Expr.items] at parts
    | _ => cases kinds
  | foreach =>
    cases e' with
    | foreach =>
      obtain rfl := spans
      simp only [Expr.items, List.map_cons, List.cons.injEq, shown_expr, shown_block, and_true]
        at parts
      obtain ⟨names, types⟩ := typed_injective w.1 w'.1 w.2.1 w'.2.1 details
      rw [Expr.shown, Expr.shown, names, types, parts.1, parts.2]
      rfl
    | _ => cases kinds
  | block body =>
    cases e' with
    | block body' =>
      obtain ⟨stmts, span, ty⟩ := body
      obtain ⟨stmts', span', ty'⟩ := body'
      obtain rfl := spans
      rw [Expr.shown, Expr.shown, Block.shown, Block.shown, shown_stmts.mp parts]
      rfl
    | _ => cases kinds

namespace Outline.Item

variable {item item' : Item}

theorem shown_eq (read : item.Read) (read' : item'.Read) (kinds : item.kind = item'.kind)
    (details : item.detail = item'.detail)
    (parts : item.parts.map shown = item'.parts.map shown) : item.shown = item'.shown := by
  cases item with
  | chained =>
    cases item' with
    | chained =>
      simp only [Item.parts, List.map_cons, List.cons.injEq, shown_expr, and_true] at parts
      rw [shown, shown, parts]
    | field => cases kinds
    | stmt s' =>
      cases s' with
      | expr e' => cases e' <;> cases kinds
      | _ => cases kinds
  | field b =>
    cases item' with
    | chained => cases kinds
    | field b' =>
      have chars : (binding b).toList ++ [] = (binding b').toList ++ [] := by
        rw [(String.append_right_inj _).mp details]
      rw [shown, shown,
        (binding_injective read read' (by simp [Stops]) (by simp [Stops]) chars).1]
    | stmt s' =>
      cases s' with
      | expr e' => cases e' <;> cases kinds
      | _ => cases kinds
  | stmt s =>
    cases item' with
    | chained | field =>
      cases s with
      | expr e => cases e <;> cases kinds
      | _ => cases kinds
    | stmt s' =>
      obtain ⟨w, a⟩ := read
      obtain ⟨w', a'⟩ := read'
      refine congrArg Item.stmt ?_
      cases s with
      | letIn =>
        cases s' with
        | letIn =>
          obtain ⟨isName, isType, -⟩ := w
          obtain ⟨isName', isType', -⟩ := w'
          obtain ⟨typed, span⟩ := place_injective details
          obtain ⟨names, types⟩ := typed_injective isName isName' isType isType' typed
          obtain ⟨firsts, bodies⟩ := List.cons.inj parts
          have bodies := (shown_map chained Expr.shown (fun _ => rfl) fun _ _ same => by
            simpa using same).mp bodies
          rw [Stmt.shown, Stmt.shown, names, types, span, shown_expr.mp firsts,
            Expr.allShown_eq, bodies, Expr.allShown_eq]
        | expr e' => cases e' <;> cases kinds
        | _ => cases kinds
      | func =>
        cases s' with
        | func =>
          obtain ⟨isName, areParams, isReturns, -⟩ := w
          obtain ⟨isName', areParams', isReturns', -⟩ := w'
          obtain ⟨names, bindings, types⟩ := signature_injective isName isName' areParams
            areParams' isReturns isReturns' details
          rw [Stmt.shown, Stmt.shown, names, bindings, types,
            shown_block.mp (shown_expr.mp (List.cons.inj parts).1)]
        | expr e' => cases e' <;> cases kinds
        | _ => cases kinds
      | record =>
        cases s' with
        | record =>
          have fields := (shown_map field Binding.bare (fun _ => rfl) fun _ _ same => by
            simpa using same).mp parts
          rw [Stmt.shown, Stmt.shown, bare_injective details, fields]
        | expr e' => cases e' <;> cases kinds
        | _ => cases kinds
      | expr e =>
        cases s' with
        | letIn | func | record => cases e <;> cases kinds
        | expr e' =>
          obtain ⟨details, spans⟩ := place_injective details
          rw [Stmt.shown, Stmt.shown, Expr.shown_eq w a w' a' kinds details spans parts]

theorem shown_map_injective {depth : Nat} {items items' : List Item}
    (read' : ∀ item ∈ items', item.Read) (each : ∀ item ∈ items, ∀ item' : Item, item'.Read →
      item.lines depth = item'.lines depth → item.shown = item'.shown)
    (same : items.map (lines depth) = items'.map (lines depth)) :
    items.map shown = items'.map shown := by
  induction items generalizing items' with
  | nil =>
    cases items' with
    | nil => rfl
    | cons => cases same
  | cons item rest ih =>
    cases items' with
    | nil => cases same
    | cons item' rest' =>
      obtain ⟨firsts, rests⟩ := List.cons.inj same
      obtain ⟨isRead', areRead'⟩ := List.forall_mem_cons.mp read'
      obtain ⟨isShown, areShown⟩ := List.forall_mem_cons.mp each
      rw [List.map_cons, List.map_cons, isShown item' isRead' firsts,
        ih areRead' areShown rests]

theorem shown_injective (item : Item) : ∀ (item' : Item) (depth : Nat), item.Read → item'.Read →
    item.lines depth = item'.lines depth → item.shown = item'.shown := by
  induction item using of_parts with
  | step item ih =>
  intro item' depth read read' same
  obtain ⟨kinds, details, parts⟩ := lines_injective read read' same
  refine shown_eq read read' kinds details ?_
  exact shown_map_injective (read_parts read') (fun part member part' isPart' =>
    ih part member part' (depth + 1) (read_parts read part member) isPart') parts

end Outline.Item

/-! ### What is not shown does not matter -/

namespace Outline

mutual

theorem typeRef_bare : ∀ type : TypeRef, typeRef type.bare = typeRef type
  | ⟨_, [], _⟩ => rfl
  | ⟨_, first :: rest, _⟩ => by
    simp only [TypeRef.bare, TypeRef.allBare, Ident.bare, typeRef, typeRef_bare first,
      moreTypes_bare rest]

theorem moreTypes_bare : ∀ types : List TypeRef, moreTypes (TypeRef.allBare types) = moreTypes types
  | [] => rfl
  | type :: rest => by
    simp only [TypeRef.allBare, moreTypes, typeRef_bare type, moreTypes_bare rest]

end

theorem binding_bare (b : Binding .parsed) : binding b.bare = binding b := by
  simp only [binding, Binding.bare, Ident.bare, typeRef_bare]

end Outline

theorem Expr.shown_line (e : Expr .parsed) : e.shown.kind = e.kind ∧ e.shown.detail = e.detail ∧
    e.shown.span = e.span ∧ e.shown.items = e.items.map Item.shown := by
  cases e with
  | range _ _ step => cases step <;> exact ⟨rfl, rfl, rfl, rfl⟩
  | foreach =>
    refine ⟨rfl, ?_, rfl, rfl⟩
    simp [Expr.shown, Expr.detail, Ident.bare, typeRef_bare]
  | call | construct =>
    refine ⟨rfl, rfl, rfl, ?_⟩
    simp [Expr.shown, Expr.items, Expr.allShown_eq, Item.shown, Stmt.shown]
  | block body =>
    obtain ⟨stmts, span, ty⟩ := body
    refine ⟨rfl, rfl, rfl, ?_⟩
    simp [Expr.shown, Block.shown, Expr.items, Stmt.allShown_eq, Item.shown]
  | _ => exact ⟨rfl, rfl, rfl, rfl⟩

namespace Outline.Item

theorem shown_line (item : Item) : item.shown.kind = item.kind ∧ item.shown.detail = item.detail ∧
    item.shown.parts = item.parts.map shown := by
  cases item with
  | chained => exact ⟨rfl, rfl, rfl⟩
  | field => exact ⟨rfl, by simp [shown, detail, binding_bare], rfl⟩
  | stmt s =>
    cases s with
    | letIn =>
      refine ⟨rfl, ?_, ?_⟩
      · simp [shown, Stmt.shown, detail, Ident.bare, typeRef_bare]
      · simp [shown, Stmt.shown, parts, Expr.allShown_eq]
    | func =>
      refine ⟨rfl, ?_, rfl⟩
      simp [shown, Stmt.shown, detail, Ident.bare, typeRef_bare, Function.comp_def,
        binding_bare]
    | record => exact ⟨rfl, rfl, by simp [shown, Stmt.shown, parts]⟩
    | expr e =>
      obtain ⟨kinds, details, spans, parts⟩ := e.shown_line
      exact ⟨kinds, by rw [shown, Stmt.shown, detail, details, spans, detail], parts⟩

theorem lines_shown (item : Item) : ∀ depth, item.shown.lines depth = item.lines depth := by
  induction item using of_parts with
  | step item ih =>
  intro depth
  obtain ⟨kinds, details, parts⟩ := item.shown_line
  have same : item.parts.map (lines (depth + 1) ∘ shown) = item.parts.map (lines (depth + 1)) :=
    List.map_congr_left fun part member => ih part member (depth + 1)
  rw [lines_eq, lines_eq depth item, kinds, details, parts, List.map_map, same]

end Item

theorem ofLines_injective {depth depth' : Nat} {lines lines' : List String}
    (rows : Rows depth lines) (rows' : Rows depth' lines') (same : ofLines lines = ofLines lines') : lines = lines' := by
  have chars (lines : List String) : (ofLines lines).toList =
      (lines.map fun line => line.toList ++ ['\n']).flatten := by
    rw [ofLines]
    induction lines with
    | nil => rfl
    | cons line rest ih =>
      simp only [List.map_cons, String.join_cons, String.toList_append, ih, List.flatten_cons]
      rfl
  have ended {depth : Nat} {lines : List String} (rows : Rows depth lines) :
      ∀ part ∈ lines.map fun line => line.toList ++ ['\n'], Text.Ended '\n' part :=
    List.forall_mem_map.mpr fun line member => ⟨line.toList, rfl, (rows line member).2⟩
  have parts := congrArg String.toList same
  rw [chars, chars] at parts
  refine List.map_injective_iff.mpr ?_ (Text.flatten_injective (ended rows) (ended rows') parts)
  exact fun line line' same => String.toList_inj.mp (List.append_cancel_right same)

end Outline

/-- Modules have the same outline exactly if they are the same up to what it does not show. -/
theorem Module.outline_eq_iff {source source' : String} {names names' : NameTable}
    {m m' : Module .parsed} (parsed : (parseModule source names).1 = .ok m)
    (parsed' : (parseModule source' names').1 = .ok m') :
    m.outline = m'.outline ↔ m.shown = m'.shown := by
  have shown_iff : m.shown = m'.shown ↔ (m.stmts.map Item.stmt).map Item.shown =
      (m'.stmts.map Item.stmt).map Item.shown := by
    rw [Module.shown, Module.shown, Module.mk.injEq]
    exact shown_stmts.symm
  rw [shown_iff, Module.outline, Module.outline, Item.stmts_eq, Item.stmts_eq]
  constructor
  · intro same
    obtain ⟨writable, anchored⟩ := parseModule_read parsed
    obtain ⟨writable', anchored'⟩ := parseModule_read parsed'
    have read := List.forall_mem_map.mpr (Item.read_stmts writable anchored)
    have read' := List.forall_mem_map.mpr (Item.read_stmts writable' anchored')
    have nodes := Item.nodes_map 0 read
    have nodes' := Item.nodes_map 0 read'
    have lines := ofLines_injective (rows_flatten nodes) (rows_flatten nodes') same
    exact Item.shown_map_injective read' (fun item member item' =>
      item.shown_injective item' 0 (read item member)) (parts_injective nodes nodes' lines)
  · intro same
    have shown (items : List Item) :
        (items.map Item.shown).map (Item.lines 0) = items.map (Item.lines 0) := by
      simp [Item.lines_shown]
    rw [← shown, same, shown]

/-- The function's name stands elsewhere in the second text, and what is shown does not. -/
theorem Module.outline_eq_iff_shifted : ∃ m m',
    (parseModule "func Main  ()->Boolean\x7bp.a\x7d" .empty).1 = .ok m ∧
      (parseModule "func  Main ()->Boolean\x7bp.a\x7d" .empty).1 = .ok m' ∧
      m.outline = m'.outline ∧ m.shown = m'.shown := by
  have chars : "func Main  ()->Boolean\x7bp.a\x7d".toList = _ := String.toList_ofList
  have chars' : "func  Main ()->Boolean\x7bp.a\x7d".toList = _ := String.toList_ofList
  obtain ⟨m, parsed, m', parsed', same⟩ : ∃ m,
      (parseModule "func Main  ()->Boolean\x7bp.a\x7d" .empty).1 = .ok m ∧ ∃ m',
        (parseModule "func  Main ()->Boolean\x7bp.a\x7d" .empty).1 = .ok m' ∧ m.shown = m'.shown := by
    refine Stateful.exists_eq_ok ?_
    rw [parseModule, parseWith, Token.scan, chars]
    cbv
    refine Stateful.exists_eq_ok ?_
    rw [parseModule, parseWith, Token.scan, chars']
    cbv
  exact ⟨m, m', parsed, parsed', (Module.outline_eq_iff parsed parsed').mpr same, same⟩

end LetChain
