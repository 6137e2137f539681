import LetChain.Proofs.Lowering.Numbered
import LetChain.Proofs.Syntax.Spelled
import LetChain.Proofs.Text.Legible
import LetChain.Proofs.Typing.Nodes
import Mathlib.Data.List.Perm.Subperm

/-! The names that functions get in a program. All are different, because a name is only used while it
is free; what they look like follows from the names in the tree. -/

namespace LetChain

namespace Layout

/-! ### Free names -/

section FreeName

variable {taken : Std.HashSet String} {base : String}

def suffixed (base : String) (k : Nat) : String := base ++ "#" ++ toString k

theorem toList_suffixed (k : Nat) :
    (suffixed base k).toList = base.toList ++ '#' :: (Nat.repr k).toList := by
  have plain : suffixed base k = base ++ "#" ++ Nat.repr k := rfl
  rw [plain]
  simp

theorem suffixed_injective {j k : Nat} (same : suffixed base j = suffixed base k) : j = k := by
  have chars := congrArg String.toList same
  rw [toList_suffixed, toList_suffixed] at chars
  exact Text.repr_injective (List.cons.inj (List.append_cancel_left chars)).2

theorem numbered_spec (taken : Std.HashSet String) (base : String) : ∀ fuel k : Nat,
    ∃ j, k ≤ j ∧ j ≤ k + fuel ∧ numbered taken base fuel k = suffixed base j ∧
      (∀ i, k ≤ i → i < j → suffixed base i ∈ taken) ∧
      (suffixed base j ∈ taken → j = k + fuel)
  | 0, k => ⟨k, Nat.le_refl _, Nat.le_refl _, rfl, by omega, fun _ => rfl⟩
  | fuel + 1, k => by
    rw [numbered]
    change ∃ j, k ≤ j ∧ j ≤ k + (fuel + 1) ∧
      (if taken.contains (suffixed base k) then _ else suffixed base k) = suffixed base j ∧ _
    split
    case isTrue busy =>
      obtain ⟨j, least, most, same, before, full⟩ := numbered_spec taken base fuel (k + 1)
      refine ⟨j, by omega, by omega, same, fun i low high => ?_, fun member => ?_⟩
      · by_cases first : i = k
        · rw [first]
          exact busy
        · exact before i (by omega) high
      · have := full member
        omega
    case isFalse free =>
      exact ⟨k, Nat.le_refl _, by omega, rfl, by omega, fun member => absurd member free⟩

/-- A name that is taken is given the least number from two on that makes it free. -/
inductive Frees (taken : Std.HashSet String) (base : String) : String → Prop
  | plain : base ∉ taken → Frees taken base base
  | numbered {j} : base ∈ taken → 2 ≤ j → suffixed base j ∉ taken →
      (∀ i, 2 ≤ i → i < j → suffixed base i ∈ taken) → Frees taken base (suffixed base j)

theorem exists_suffixed_notMem (taken : Std.HashSet String) (base : String) :
    ∃ i ≤ taken.size, suffixed base (2 + i) ∉ taken := by
  by_contra all
  have busy : (List.range (taken.size + 1)).map (fun i => suffixed base (2 + i)) ⊆ taken.toList := by
    intro name member
    obtain ⟨i, bound, rfl⟩ := List.mem_map.mp member
    rw [Std.HashSet.mem_toList]
    by_contra free
    exact all ⟨i, Nat.le_of_lt_succ (List.mem_range.mp bound), free⟩
  have distinct : ((List.range (taken.size + 1)).map fun i => suffixed base (2 + i)).Nodup :=
    List.nodup_range.map fun i j same => Nat.add_left_cancel (suffixed_injective same)
  have length := (distinct.subperm busy).length_le
  rw [List.length_map, List.length_range, Std.HashSet.length_toList] at length
  omega

theorem freeName_frees (taken : Std.HashSet String) (base : String) :
    Frees taken base (freeName taken base) := by
  rw [freeName]
  split
  case isTrue busy =>
    obtain ⟨j, least, most, same, before, full⟩ := numbered_spec taken base taken.size 2
    rw [same]
    refine .numbered busy least (fun member => ?_) before
    obtain ⟨i, bound, free⟩ := exists_suffixed_notMem taken base
    have last := full member
    by_cases earlier : 2 + i < j
    · exact free (before _ (by omega) earlier)
    · rw [show 2 + i = j by omega] at free
      exact free member
  case isFalse free => exact .plain free

theorem Frees.notMem {name : String} (frees : Frees taken base name) : name ∉ taken := by
  cases frees with
  | plain free => exact free
  | numbered _ _ free => exact free

theorem Frees.notMem_toList {name : String} (frees : Frees taken base name) {c : Char}
    (absent : c ∉ base.toList) (mark : c ≠ '#') (noDigit : c.isDigit = false) : c ∉ name.toList := by
  cases frees with
  | plain => exact absent
  | numbered =>
    rw [toList_suffixed, List.mem_append, List.mem_cons]
    rintro (inBase | rfl | inNumber)
    · exact absent inBase
    · exact mark rfl
    · exact Text.notMem_repr noDigit inNumber

end FreeName

/-- Adding the functions and records of a tree keeps what is known of the layout, and what is known of
the name of the function around. -/
structure Keeps (symbols : Symbols) (good : Part → Prop) (around : Option String → Prop)
    (known : Layout → Prop) : Prop where
  function : ∀ {layout layout' : Layout} {outer : Option String} {name : Ident}
    {params : List (Binding .typed)} {returns : TypeRef} {body : Block .typed} {span : Span}
    {sym : SymbolId} {name' : String}, good (.stmt (.func name params returns body span sym)) →
    around outer → known layout →
    layout.addFunction outer name.text params.length body sym = .ok (layout', name') →
    known layout' ∧ around (some name')
  record : ∀ {layout layout' : Layout} {name : Ident} {fields : List (Binding .typed)} {span : Span}
    {sym : SymbolId}, good (.stmt (.record name fields span sym)) → known layout →
    addRecord symbols layout name.text sym = .ok layout' → known layout'

namespace Keeps

variable {symbols : Symbols} {good : Part → Prop} {around : Option String → Prop}
  {known : Layout → Prop}

theorem addNest (keeps : Keeps symbols good around known) {nest : Nest} {owner : Option SymbolId}
    {outer : Option String} {layout layout' : Layout}
    (all : ∀ node ∈ nest.nodes owner, good node.part) (inside : around outer) (start : known layout)
    (ran : Layout.addNest symbols outer layout nest = .ok layout') : known layout' := by
  induction nest generalizing owner outer layout layout' with
  | nil =>
    cases ran
    exact start
  | localVar part sym declares rest ih =>
    exact ih (List.forall_mem_cons.mp all).2 inside start ran
  | record name fields span sym rest ih =>
    obtain ⟨isGood, others⟩ := List.forall_mem_cons.mp all
    obtain ⟨_, added, ran⟩ := Stateful.except_bind_eq_ok.mp ran
    exact ih others inside (keeps.record isGood start added) ran
  | function name params returns body span sym inner rest ihInner ihRest =>
    obtain ⟨isGood, others⟩ := List.forall_mem_cons.mp all
    obtain ⟨allInner, allRest⟩ := List.forall_mem_append.mp others
    obtain ⟨⟨_, made⟩, added, ran⟩ := Stateful.except_bind_eq_ok.mp ran
    obtain ⟨_, ranInner, ranRest⟩ := Stateful.except_bind_eq_ok.mp ran
    obtain ⟨later, within⟩ := keeps.function isGood inside start added
    exact ihRest allRest inside (ihInner allInner within later ranInner) ranRest

theorem addStmts (keeps : Keeps symbols good around known) (stmts : List (Stmt .typed))
    {owner : Option SymbolId} {outer : Option String} {layout layout' : Layout}
    (all : ∀ node ∈ Stmt.allNodes owner stmts, good node.part) (inside : around outer)
    (start : known layout) (ran : Layout.addStmts symbols outer layout stmts = .ok layout') :
    known layout' := by
  rw [addStmts_eq] at ran
  have declaring : ∀ node ∈ (Stmt.allNested stmts).nodes owner, good node.part := by
    rw [← Stmt.declaring_allNodes]
    exact fun node member => all node (List.mem_of_mem_filter member)
  exact keeps.addNest declaring inside start ran

end Keeps

end Layout

/-! ### Spelled trees -/

def Part.Spelled : Part → Prop
  | .stmt (.func name _ _ _ _ _) => Text.isName name.text = true
  | .stmt (.record name fields _ _) =>
    Text.isName name.text = true ∧ ∀ field ∈ fields, Text.isName field.name.text = true
  | _ => True

section Spelled

variable {number : Float → Prop}

mutual

theorem Expr.nodes_spelled : ∀ (e : Expr .typed) {owner : Option SymbolId},
    e.erase.Writable number → ∀ node ∈ e.nodes owner, node.part.Spelled
  | .number .., _, _ | .string .., _, _ | .bool .., _, _ | .named .., _, _ => by
    simp [Expr.nodes, Part.Spelled]
  | .binary _ lhs rhs _ _, _, ⟨isLhs, isRhs⟩ => by
    simp only [Expr.nodes, List.forall_mem_cons, List.forall_mem_append]
    exact ⟨trivial, lhs.nodes_spelled isLhs, rhs.nodes_spelled isRhs⟩
  | .range first limit none _ _, _, ⟨isFirst, isLimit⟩ => by
    simp only [Expr.nodes, List.forall_mem_cons, List.forall_mem_append]
    exact ⟨trivial, first.nodes_spelled isFirst, limit.nodes_spelled isLimit⟩
  | .range first limit (some step) _ _, _, ⟨isFirst, isLimit, isStep⟩ => by
    simp only [Expr.nodes, List.forall_mem_cons, List.forall_mem_append]
    exact ⟨trivial, ⟨first.nodes_spelled isFirst, limit.nodes_spelled isLimit⟩,
      step.nodes_spelled isStep⟩
  | .call _ args _ _ _, _, ⟨_, areArgs⟩ => by
    simp only [Expr.nodes, List.forall_mem_cons]
    exact ⟨trivial, Expr.allNodes_spelled args areArgs⟩
  | .construct _ args _ _ _, _, ⟨_, areArgs⟩ => by
    simp only [Expr.nodes, List.forall_mem_cons]
    exact ⟨trivial, Expr.allNodes_spelled args areArgs⟩
  | .member base _ _ _ _, _, ⟨isBase, _⟩ => by
    simp only [Expr.nodes, List.forall_mem_cons]
    exact ⟨trivial, base.nodes_spelled isBase⟩
  | .ifElse cond yes no _ _, _, ⟨isCond, isYes, isNo⟩ => by
    simp only [Expr.nodes, List.forall_mem_cons, List.forall_mem_append]
    exact ⟨trivial, ⟨cond.nodes_spelled isCond, yes.nodes_spelled isYes⟩, no.nodes_spelled isNo⟩
  | .ifOnly cond yes _ _, _, ⟨isCond, isYes⟩ => by
    simp only [Expr.nodes, List.forall_mem_cons, List.forall_mem_append]
    exact ⟨trivial, cond.nodes_spelled isCond, yes.nodes_spelled isYes⟩
  | .foreach _ _ source body _ _ _, _, ⟨_, _, isSource, isBody⟩ => by
    simp only [Expr.nodes, List.forall_mem_cons, List.forall_mem_append]
    exact ⟨trivial, source.nodes_spelled isSource, body.nodes_spelled isBody⟩
  | .block body _, _, isBody => by
    simp only [Expr.nodes, List.forall_mem_cons]
    exact ⟨trivial, body.nodes_spelled isBody⟩

theorem Expr.allNodes_spelled : ∀ (es : List (Expr .typed)) {owner : Option SymbolId},
    Expr.AllWritable number (Expr.eraseAll es) →
    ∀ node ∈ Expr.allNodes owner es, node.part.Spelled
  | [], _, _ => nofun
  | first :: rest, _, ⟨isFirst, areRest⟩ => by
    simp only [Expr.allNodes, List.forall_mem_append]
    exact ⟨first.nodes_spelled isFirst, Expr.allNodes_spelled rest areRest⟩

theorem Block.nodes_spelled : ∀ (body : Block .typed) {owner : Option SymbolId},
    body.erase.Writable number → ∀ node ∈ body.nodes owner, node.part.Spelled
  | ⟨stmts, _, _⟩, _, areStmts => by
    simp only [Block.nodes, List.forall_mem_cons]
    exact ⟨trivial, Stmt.allNodes_spelled stmts areStmts⟩

theorem Stmt.allNodes_spelled : ∀ (stmts : List (Stmt .typed)) {owner : Option SymbolId},
    Stmt.AllWritable number (Stmt.eraseAll stmts) →
    ∀ node ∈ Stmt.allNodes owner stmts, node.part.Spelled
  | [], _, _ => nofun
  | first :: rest, _, ⟨isFirst, areRest⟩ => by
    simp only [Stmt.allNodes, List.forall_mem_append]
    exact ⟨first.nodes_spelled isFirst, Stmt.allNodes_spelled rest areRest⟩

theorem Stmt.nodes_spelled : ∀ (stmt : Stmt .typed) {owner : Option SymbolId},
    stmt.erase.Writable number → ∀ node ∈ stmt.nodes owner, node.part.Spelled
  | .letIn _ _ first chained _ _, _, ⟨_, _, isFirst, _, areChained⟩ => by
    simp only [Stmt.nodes, List.forall_mem_cons, List.forall_mem_append]
    exact ⟨trivial, first.nodes_spelled isFirst, Expr.allNodes_spelled chained areChained⟩
  | .func _ _ _ body _ _, _, ⟨isName, _, _, isBody⟩ => by
    simp only [Stmt.nodes, List.forall_mem_cons]
    exact ⟨isName, body.nodes_spelled isBody⟩
  | .record _ fields _ _, _, ⟨isName, areFields⟩ => by
    rintro node member
    obtain rfl := List.mem_singleton.mp member
    exact ⟨isName, fun field member => (areFields _ (List.mem_map_of_mem member)).1⟩
  | .expr value, _, isValue => by
    simp only [Stmt.nodes, List.forall_mem_cons]
    exact ⟨trivial, value.nodes_spelled isValue⟩

end

end Spelled

theorem Text.ne_empty_of_isName {text : String} (isName : Text.isName text = true) : text ≠ "" := by
  rintro rfl
  cases isName

namespace Layout

/-! ### Names of functions -/

/-- The functions have different names, in which `blank` does not stand, and every record comes from
a statement. -/
structure Named (symbols : Symbols) (good : Part → Prop) (blank : Char) (layout : Layout) : Prop where
  distinct : (layout.functions.toList.map LaidFunction.name).Nodup
  taken : ∀ function ∈ layout.functions, function.name ∈ layout.taken
  plain : ∀ function ∈ layout.functions, blank ∉ function.name.toList
  records : ∀ record ∈ layout.records, ∃ name fields span sym,
    good (.stmt (.record name fields span sym)) ∧ record = recordOf symbols name.text sym

structure Blank (c : Char) : Prop where
  word : Lexeme.isWordPart c = false
  point : c ≠ '.'
  mark : c ≠ '#'

theorem Blank.notDigit {c : Char} (blank : Blank c) : c.isDigit = false := by
  have word := blank.word
  simp only [Lexeme.isWordPart, Char.isAlphanum, Bool.or_eq_false_iff] at word
  exact word.1.2

theorem Named.empty (symbols : Symbols) (good : Part → Prop) (blank : Char) :
    empty.Named symbols good blank := by
  constructor <;> simp [Layout.empty]

theorem keeps_named {symbols : Symbols} {good : Part → Prop} (spelled : ∀ part, good part → part.Spelled)
    {c : Char} (blank : Blank c) :
    Keeps symbols good (fun outer => ∀ name ∈ outer, c ∉ name.toList) (Named symbols good c) := by
  constructor
  · intro layout layout' outer name params returns body span sym name' isGood inside named ran
    obtain ⟨rfl, rfl⟩ := addFunction_eq_ok ran
    have frees := freeName_frees layout.taken (qualified outer name.text)
    have isName := Text.notMem_of_isName (spelled _ isGood) blank.word
    have plain : c ∉ (freeName layout.taken (qualified outer name.text)).toList := by
      refine frees.notMem_toList ?_ blank.mark blank.notDigit
      cases outer with
      | none => exact isName
      | some outer =>
        have joined : (qualified (some outer) name.text).toList =
            outer.toList ++ '.' :: name.text.toList := by simp [qualified]
        rw [joined, List.mem_append, List.mem_cons]
        rintro (inOuter | rfl | inName)
        · exact inside outer rfl inOuter
        · exact blank.point rfl
        · exact isName inName
    refine ⟨⟨?_, ?_, ?_, named.records⟩, fun _ same => Option.some.inj same ▸ plain⟩
    · rw [Array.toList_push, List.map_append, List.map_singleton, List.nodup_append]
      refine ⟨named.distinct, List.nodup_singleton _, ?_⟩
      rintro _ older _ new rfl
      obtain ⟨function, member, same⟩ := List.mem_map.mp older
      rw [List.mem_singleton.mp new] at same
      have taken := named.taken function (Array.mem_def.mpr member)
      rw [same] at taken
      exact frees.notMem taken
    · intro function member
      rw [Std.HashSet.mem_insert]
      rcases Array.mem_push.mp member with older | rfl
      · exact Or.inr (named.taken function older)
      · exact Or.inl (beq_self_eq_true _)
    · intro function member
      rcases Array.mem_push.mp member with older | rfl
      · exact named.plain function older
      · exact plain
  · intro layout layout' name fields span sym isGood named ran
    obtain rfl := addRecord_eq_ok ran
    refine ⟨named.distinct, named.taken, named.plain, fun record member => ?_⟩
    rcases Array.mem_push.mp member with older | rfl
    · exact named.records record older
    · exact ⟨name, fields, span, sym, isGood, rfl⟩

def functionNames (layout : Layout) : List String := layout.functions.toList.map LaidFunction.name

/-! ### Names with one root -/

def root (name : String) : List Char := name.toList.takeWhile fun c => c != '.' && c != '#'

theorem takeWhile_append_cons {p : Char → Bool} (chars rest : List Char) {c : Char}
    (stops : p c = false) : (chars ++ c :: rest).takeWhile p = chars.takeWhile p := by
  induction chars with
  | nil => simp [stops]
  | cons first others ih => simp [List.takeWhile_cons, ih]

theorem root_suffixed (base : String) (k : Nat) : root (suffixed base k) = root base := by
  rw [root, toList_suffixed, takeWhile_append_cons _ _ (by simp), root]

theorem root_qualified (outer name : String) : root (qualified (some outer) name) = root outer := by
  have joined : (qualified (some outer) name).toList = outer.toList ++ '.' :: name.toList := by
    simp [qualified]
  rw [root, joined, takeWhile_append_cons _ _ (by simp), root]

theorem root_of_isName {name : String} (isName : Text.isName name = true) :
    root name = name.toList := by
  rw [root, List.takeWhile_eq_self_iff]
  intro c member
  simp only [Bool.and_eq_true, bne_iff_ne]
  constructor
  · rintro rfl
    exact Text.notMem_of_isName isName rfl member
  · rintro rfl
    exact Text.notMem_of_isName isName rfl member

theorem Frees.root_eq {taken : Std.HashSet String} {base name : String}
    (frees : Frees taken base name) : root name = root base := by
  cases frees with
  | plain => rfl
  | numbered => exact root_suffixed base _

end Layout

end LetChain
