import LetChain.Proofs.Syntax.Reading
import LetChain.Proofs.Token.Spaced

/-! Parsed trees written out again. Every expression stands in parentheses and every body in braces,
so that nothing that follows a form can be taken for a part of it. -/

namespace LetChain

/-! ### Trees without spans -/

def Ident.bare (name : Ident) : Ident := ⟨name.text, default⟩

mutual

def TypeRef.bare : TypeRef → TypeRef
  | ⟨name, args, _⟩ => ⟨name.bare, TypeRef.allBare args, default⟩

def TypeRef.allBare : List TypeRef → List TypeRef
  | [] => []
  | first :: rest => first.bare :: TypeRef.allBare rest

end

def Binding.bare (binding : Binding .parsed) : Binding .parsed :=
  ⟨binding.name.bare, binding.type.bare, ()⟩

mutual

/-- The tree with no spans, so that two trees have the same bare tree when they differ in nothing
but where they stand. -/
def Expr.bare : Expr .parsed → Expr .parsed
  | .number value _ _ => .number value default ()
  | .string value _ _ => .string value default ()
  | .bool value _ _ => .bool value default ()
  | .named name _ _ _ => .named name.bare () default ()
  | .binary op lhs rhs _ _ => .binary op lhs.bare rhs.bare default ()
  | .range first limit none _ _ => .range first.bare limit.bare none default ()
  | .range first limit (some step) _ _ =>
    .range first.bare limit.bare (some step.bare) default ()
  | .call name args _ _ _ => .call name.bare (Expr.allBare args) () default ()
  | .construct name args _ _ _ => .construct name.bare (Expr.allBare args) () default ()
  | .member base field _ _ _ => .member base.bare field.bare () default ()
  | .ifElse cond yes no _ _ => .ifElse cond.bare yes.bare no.bare default ()
  | .ifOnly cond yes _ _ => .ifOnly cond.bare yes.bare default ()
  | .foreach element elementType source body _ _ _ =>
    .foreach element.bare elementType.bare source.bare body.bare () default ()
  | .block body _ => .block body.bare ()

def Expr.allBare : List (Expr .parsed) → List (Expr .parsed)
  | [] => []
  | first :: rest => first.bare :: Expr.allBare rest

def Block.bare : Block .parsed → Block .parsed
  | ⟨stmts, _, _⟩ => ⟨Stmt.allBare stmts, default, ()⟩

def Stmt.bare : Stmt .parsed → Stmt .parsed
  | .letIn name type first chained _ _ =>
    .letIn name.bare type.bare first.bare (Expr.allBare chained) default ()
  | .func name params returns body _ _ =>
    .func name.bare (params.map Binding.bare) returns.bare body.bare default ()
  | .record name fields _ _ => .record name.bare (fields.map Binding.bare) default ()
  | .expr value => .expr value.bare

def Stmt.allBare : List (Stmt .parsed) → List (Stmt .parsed)
  | [] => []
  | first :: rest => first.bare :: Stmt.allBare rest

end

def Module.bare (m : Module .parsed) : Module .parsed := ⟨Stmt.allBare m.stmts⟩

theorem TypeRef.allBare_eq (types : List TypeRef) : TypeRef.allBare types = types.map bare := by
  induction types with
  | nil => rfl
  | cons first rest ih => simp [TypeRef.allBare, ih]

theorem Expr.allBare_eq (exprs : List (Expr .parsed)) : Expr.allBare exprs = exprs.map bare := by
  induction exprs with
  | nil => rfl
  | cons first rest ih => simp [Expr.allBare, ih]

theorem Stmt.allBare_eq (stmts : List (Stmt .parsed)) : Stmt.allBare stmts = stmts.map bare := by
  induction stmts with
  | nil => rfl
  | cons first rest ih => simp [Stmt.allBare, ih]

@[simp] theorem Expr.isSelfAssigning_bare (e : Expr .parsed) :
    e.bare.isSelfAssigning = e.isSelfAssigning := by
  cases e with
  | range _ _ step => cases step <;> rfl
  | _ => rfl

/-! ### Trees in words -/

namespace Word

def enclosed (opening : TokenKind) (words : List Word) (closing : TokenKind) : List Word :=
  of opening :: (words ++ [of closing])

def parens (words : List Word) : List Word := enclosed .leftParen words .rightParen

def braces (words : List Word) : List Word := enclosed .leftBrace words .rightBrace

/-- The items with commas between them. -/
def listed (items : List (List Word)) : List Word := [of .comma].intercalate items

@[simp] theorem enclosed_length (opening closing : TokenKind) (words : List Word) :
    (enclosed opening words closing).length = words.length + 2 := by simp [enclosed]

@[simp] theorem parens_length (words : List Word) : (parens words).length = words.length + 2 :=
  enclosed_length ..

@[simp] theorem braces_length (words : List Word) : (braces words).length = words.length + 2 :=
  enclosed_length ..

theorem listed_cons_cons (first next : List Word) (rest : List (List Word)) :
    listed (first :: next :: rest) = first ++ of .comma :: listed (next :: rest) := by
  simp [listed, List.intercalate_cons_cons]

theorem length_le_listed (items : List (List Word)) :
    items.length ≤ (listed items).length + 1 ∧
      ∀ words ∈ items, words.length ≤ (listed items).length := by
  induction items with
  | nil => simp
  | cons first rest ih =>
    cases rest with
    | nil => simp [listed]
    | cons next rest =>
      rw [listed_cons_cons]
      simp only [List.length_append, List.length_cons, List.forall_mem_cons] at ih ⊢
      refine ⟨by omega, by omega, by omega, fun words member => ?_⟩
      have := ih.2.2 words member
      omega

end Word

def Operator.kinds : Operator → List TokenKind
  | .or => [.orKw]
  | .and => [.andKw]
  | .eq => [.equals, .equals]
  | .ne => [.bang, .equals]
  | .greater => [.greater]
  | .less => [.less]
  | .concat => [.dot, .dot]
  | .add => [.plus]
  | .sub => [.minus]
  | .mul => [.star]
  | .div => [.slash]
  | .rem => [.percent]

mutual

def TypeRef.words : TypeRef → List Word
  | ⟨name, [], _⟩ => [.name name.text]
  | ⟨name, first :: rest, _⟩ =>
    .name name.text ::
      Word.enclosed .less (Word.listed (first.words :: TypeRef.allWords rest)) .greater

def TypeRef.allWords : List TypeRef → List (List Word)
  | [] => []
  | first :: rest => first.words :: TypeRef.allWords rest

end

theorem TypeRef.allWords_eq (types : List TypeRef) : TypeRef.allWords types = types.map words := by
  induction types with
  | nil => rfl
  | cons first rest ih => simp [TypeRef.allWords, ih]

def Binding.words (binding : Binding .parsed) : List Word :=
  .name binding.name.text :: binding.type.words

section Words

variable (spell : Float → String)

mutual

/-- An expression without the parentheses around it; its parts have theirs. -/
def Expr.inner : Expr .parsed → List Word
  | .number value _ _ => [.number (spell value)]
  | .string value _ _ => [.quoted value]
  | .bool value _ _ => [.of (if value then .trueKw else .falseKw)]
  | .named name _ _ _ => [.name name.text]
  | .binary op lhs rhs _ _ =>
    Word.parens lhs.inner ++ op.kinds.map Word.of ++ Word.parens rhs.inner
  | .range first limit none _ _ =>
    Word.enclosed .leftBracket
      (Word.parens first.inner ++ .of .toKw :: Word.parens limit.inner) .rightBracket
  | .range first limit (some step) _ _ =>
    Word.enclosed .leftBracket
      (Word.parens first.inner ++ .of .toKw :: Word.parens limit.inner ++
        .of .stepKw :: Word.parens step.inner) .rightBracket
  | .call name args _ _ _ => .name name.text :: Word.parens (Word.listed (Expr.allWords args))
  | .construct name args _ _ _ =>
    .name name.text :: Word.braces (Word.listed (Expr.allWords args))
  | .member base field _ _ _ => Word.parens base.inner ++ [.of .dot, .name field.text]
  | .ifElse cond yes no _ _ =>
    .of .ifKw :: Word.parens cond.inner ++ .of .thenKw :: Word.braces yes.inner ++
      .of .elseKw :: Word.braces no.inner
  | .ifOnly cond yes _ _ =>
    .of .ifKw :: Word.parens cond.inner ++ .of .thenKw :: Word.braces yes.inner
  | .foreach element elementType source body _ _ _ =>
    .of .foreachKw :: .name element.text :: elementType.words ++
      .of .inKw :: Word.parens source.inner ++ .of .doKw :: Word.braces body.inner
  | .block body _ => Word.braces body.inner

def Expr.allWords : List (Expr .parsed) → List (List Word)
  | [] => []
  | first :: rest => Word.parens first.inner :: Expr.allWords rest

def Block.inner : Block .parsed → List Word
  | ⟨stmts, _, _⟩ => Stmt.allWords stmts

def Stmt.words : Stmt .parsed → List Word
  | .letIn name type first chained _ _ =>
    .of .letKw :: .name name.text :: type.words ++ .of .equals :: Word.parens first.inner ++
      (Expr.allWords chained).flatMap fun words => .of .whereKw :: words
  | .func name params returns body _ _ =>
    .of .funcKw :: .name name.text :: Word.parens (Word.listed (params.map Binding.words)) ++
      .of .arrow :: returns.words ++ Word.braces body.inner
  | .record name fields _ _ =>
    .of .typeKw :: .name name.text :: Word.braces (Word.listed (fields.map Binding.words))
  | .expr value => Word.parens value.inner

def Stmt.allWords : List (Stmt .parsed) → List Word
  | [] => []
  | first :: rest => first.words ++ Stmt.allWords rest

end

theorem Expr.allWords_eq (exprs : List (Expr .parsed)) :
    Expr.allWords spell exprs = exprs.map fun e => Word.parens (e.inner spell) := by
  induction exprs with
  | nil => rfl
  | cons first rest ih => simp [Expr.allWords, ih]

end Words

/-- The module as a text in which `spell` chooses the literals of the numbers. -/
def Module.render (spell : Float → String) (m : Module .parsed) : String :=
  Word.spaced (Stmt.allWords spell m.stmts)

/-! ### Trees that can be written -/

/-- The literal is a number token that is read as this value. -/
def Number.Denotes (literal : String) (value : Float) : Prop :=
  Number.isLiteral literal = true ∧ Number.read? literal = some value

def Number.SpeltBy (spell : Float → String) (value : Float) : Prop :=
  Number.Denotes (spell value) value

mutual

def TypeRef.Writable : TypeRef → Prop
  | ⟨name, args, _⟩ => Text.isName name.text ∧ TypeRef.AllWritable args

def TypeRef.AllWritable : List TypeRef → Prop
  | [] => True
  | first :: rest => first.Writable ∧ TypeRef.AllWritable rest

end

def Binding.Writable (binding : Binding .parsed) : Prop :=
  Text.isName binding.name.text ∧ binding.type.Writable

section Writable

variable (number : Float → Prop)

mutual

/-- All names are names, all texts can be quoted, all numbers are such as `number` says, and no let
starts with a body that assigns itself. -/
def Expr.Writable : Expr .parsed → Prop
  | .number value _ _ => number value
  | .string value _ _ => Text.isQuotable value
  | .bool .. => True
  | .named name _ _ _ => Text.isName name.text
  | .binary _ lhs rhs _ _ => lhs.Writable ∧ rhs.Writable
  | .range first limit none _ _ => first.Writable ∧ limit.Writable
  | .range first limit (some step) _ _ => first.Writable ∧ limit.Writable ∧ step.Writable
  | .call name args _ _ _ => Text.isName name.text ∧ Expr.AllWritable args
  | .construct name args _ _ _ => Text.isName name.text ∧ Expr.AllWritable args
  | .member base field _ _ _ => base.Writable ∧ Text.isName field.text
  | .ifElse cond yes no _ _ => cond.Writable ∧ yes.Writable ∧ no.Writable
  | .ifOnly cond yes _ _ => cond.Writable ∧ yes.Writable
  | .foreach element elementType source body _ _ _ =>
    Text.isName element.text ∧ elementType.Writable ∧ source.Writable ∧ body.Writable
  | .block body _ => body.Writable

def Expr.AllWritable : List (Expr .parsed) → Prop
  | [] => True
  | first :: rest => first.Writable ∧ Expr.AllWritable rest

def Block.Writable : Block .parsed → Prop
  | ⟨stmts, _, _⟩ => Stmt.AllWritable stmts

def Stmt.Writable : Stmt .parsed → Prop
  | .letIn name type first chained _ _ =>
    Text.isName name.text ∧ type.Writable ∧ first.Writable ∧ first.isSelfAssigning = false ∧
      Expr.AllWritable chained
  | .func name params returns body _ _ =>
    Text.isName name.text ∧ (∀ param ∈ params, param.Writable) ∧ returns.Writable ∧ body.Writable
  | .record name fields _ _ => Text.isName name.text ∧ ∀ field ∈ fields, field.Writable
  | .expr value => value.Writable

def Stmt.AllWritable : List (Stmt .parsed) → Prop
  | [] => True
  | first :: rest => first.Writable ∧ Stmt.AllWritable rest

end

/-- Functions and records that can be written. -/
def Module.Writable (m : Module .parsed) : Prop :=
  Stmt.AllWritable number m.stmts ∧ ∀ stmt ∈ m.stmts, stmt.IsDeclaration

end Writable

section Mono

variable {number number' : Float → Prop}

mutual

theorem Expr.writable_mono (more : ∀ value, number value → number' value) :
    ∀ e : Expr .parsed, e.Writable number → e.Writable number'
  | .number value _ _, writable => more value writable
  | .string .., writable => writable
  | .bool .., _ => trivial
  | .named .., writable => writable
  | .binary _ lhs rhs _ _, ⟨left, right⟩ =>
    ⟨lhs.writable_mono more left, rhs.writable_mono more right⟩
  | .range first limit none _ _, ⟨isFirst, isLimit⟩ =>
    ⟨first.writable_mono more isFirst, limit.writable_mono more isLimit⟩
  | .range first limit (some step) _ _, ⟨isFirst, isLimit, isStep⟩ =>
    ⟨first.writable_mono more isFirst, limit.writable_mono more isLimit,
      step.writable_mono more isStep⟩
  | .call _ args _ _ _, ⟨isName, isArgs⟩ => ⟨isName, Expr.allWritable_mono more args isArgs⟩
  | .construct _ args _ _ _, ⟨isName, isArgs⟩ => ⟨isName, Expr.allWritable_mono more args isArgs⟩
  | .member base _ _ _ _, ⟨isBase, isName⟩ => ⟨base.writable_mono more isBase, isName⟩
  | .ifElse cond yes no _ _, ⟨isCond, isYes, isNo⟩ =>
    ⟨cond.writable_mono more isCond, yes.writable_mono more isYes, no.writable_mono more isNo⟩
  | .ifOnly cond yes _ _, ⟨isCond, isYes⟩ =>
    ⟨cond.writable_mono more isCond, yes.writable_mono more isYes⟩
  | .foreach _ _ source body _ _ _, ⟨isName, isType, isSource, isBody⟩ =>
    ⟨isName, isType, source.writable_mono more isSource, body.writable_mono more isBody⟩
  | .block body _, writable => body.writable_mono more writable

theorem Expr.allWritable_mono (more : ∀ value, number value → number' value) :
    ∀ exprs : List (Expr .parsed), Expr.AllWritable number exprs → Expr.AllWritable number' exprs
  | [], _ => trivial
  | first :: rest, ⟨isFirst, isRest⟩ =>
    ⟨first.writable_mono more isFirst, Expr.allWritable_mono more rest isRest⟩

theorem Block.writable_mono (more : ∀ value, number value → number' value) :
    ∀ body : Block .parsed, body.Writable number → body.Writable number'
  | ⟨stmts, _, _⟩, writable => Stmt.allWritable_mono more stmts writable

theorem Stmt.writable_mono (more : ∀ value, number value → number' value) :
    ∀ stmt : Stmt .parsed, stmt.Writable number → stmt.Writable number'
  | .letIn _ _ first chained _ _, ⟨isName, isType, isFirst, assigns, isChained⟩ =>
    ⟨isName, isType, first.writable_mono more isFirst, assigns,
      Expr.allWritable_mono more chained isChained⟩
  | .func _ _ _ body _ _, ⟨isName, isParams, isReturns, isBody⟩ =>
    ⟨isName, isParams, isReturns, body.writable_mono more isBody⟩
  | .record .., writable => writable
  | .expr value, writable => value.writable_mono more writable

theorem Stmt.allWritable_mono (more : ∀ value, number value → number' value) :
    ∀ stmts : List (Stmt .parsed), Stmt.AllWritable number stmts → Stmt.AllWritable number' stmts
  | [], _ => trivial
  | first :: rest, ⟨isFirst, isRest⟩ =>
    ⟨first.writable_mono more isFirst, Stmt.allWritable_mono more rest isRest⟩

end

end Mono

/-! ### Every word stands -/

namespace Word

def AllStand (words : List Word) : Prop := ∀ word ∈ words, word.Stands

variable {word : Word} {words more : List Word}

@[simp] theorem allStand_nil : AllStand [] := by simp [AllStand]

@[simp] theorem allStand_cons : AllStand (word :: words) ↔ word.Stands ∧ AllStand words :=
  List.forall_mem_cons

@[simp] theorem allStand_append : AllStand (words ++ more) ↔ AllStand words ∧ AllStand more :=
  List.forall_mem_append

theorem allStand_enclosed {opening closing : TokenKind} (opens : opening.spelling ≠ "")
    (closes : closing.spelling ≠ "") :
    AllStand (enclosed opening words closing) ↔ AllStand words := by
  simp [enclosed, stands_of opens, stands_of closes]

@[simp] theorem allStand_parens : AllStand (parens words) ↔ AllStand words :=
  allStand_enclosed (by decide) (by decide)

@[simp] theorem allStand_braces : AllStand (braces words) ↔ AllStand words :=
  allStand_enclosed (by decide) (by decide)

theorem allStand_listed {items : List (List Word)} (stand : ∀ words ∈ items, AllStand words) :
    AllStand (listed items) := by
  induction items with
  | nil => simp [listed]
  | cons first rest ih =>
    have firstStands := stand first (by simp)
    have restStand := ih fun words member => stand words (by simp [member])
    cases rest with
    | nil => simpa [listed] using firstStands
    | cons next rest =>
      rw [listed_cons_cons]
      simp [TokenKind.spelling, firstStands, restStand]

end Word

theorem Operator.allStand_words (op : Operator) : Word.AllStand (op.kinds.map Word.of) := by
  intro word member
  obtain ⟨kind, isKind, rfl⟩ := List.mem_map.mp member
  have fixed : ∀ kind ∈ op.kinds, kind.spelling ≠ "" := by cases op <;> decide
  exact Word.stands_of (fixed kind isKind)

mutual

theorem TypeRef.allStand_words : ∀ type : TypeRef, type.Writable → Word.AllStand type.words
  | ⟨name, [], _⟩, writable => by
    simpa [TypeRef.words] using Word.stands_name writable.1
  | ⟨name, first :: rest, _⟩, writable => by
    have args := Word.allStand_listed (TypeRef.allStand_allWords (first :: rest) writable.2)
    rw [TypeRef.words, Word.allStand_cons, Word.allStand_enclosed (by decide) (by decide)]
    exact ⟨Word.stands_name writable.1, args⟩

theorem TypeRef.allStand_allWords : ∀ types : List TypeRef, TypeRef.AllWritable types →
    ∀ words ∈ TypeRef.allWords types, Word.AllStand words
  | [], _ => by simp [TypeRef.allWords]
  | first :: rest, writable => by
    rw [TypeRef.allWords, List.forall_mem_cons]
    exact ⟨first.allStand_words writable.1, TypeRef.allStand_allWords rest writable.2⟩

end

theorem Binding.allStand_listed {bindings : List (Binding .parsed)}
    (writable : ∀ binding ∈ bindings, binding.Writable) :
    Word.AllStand (Word.listed (bindings.map Binding.words)) := by
  refine Word.allStand_listed fun words member => ?_
  obtain ⟨binding, isBinding, rfl⟩ := List.mem_map.mp member
  have isWritable := writable binding isBinding
  rw [Binding.words, Word.allStand_cons]
  exact ⟨Word.stands_name isWritable.1, binding.type.allStand_words isWritable.2⟩

section Stand

variable {spell : Float → String}

mutual

theorem Expr.allStand_inner : ∀ e : Expr .parsed, e.Writable (Number.SpeltBy spell) →
    Word.AllStand (e.inner spell)
  | .number value _ _, writable => by
    simpa [Expr.inner] using Word.stands_number writable.1
  | .string value _ _, writable => by simpa [Expr.inner] using Word.stands_quoted writable
  | .bool value _ _, _ => by cases value <;> simp [Expr.inner, TokenKind.spelling]
  | .named name _ _ _, writable => by simpa [Expr.inner] using Word.stands_name writable
  | .binary op lhs rhs _ _, ⟨left, right⟩ => by
    simp [Expr.inner, lhs.allStand_inner left, rhs.allStand_inner right, op.allStand_words]
  | .range first limit none _ _, ⟨isFirst, isLimit⟩ => by
    rw [Expr.inner, Word.allStand_enclosed (by decide) (by decide)]
    simp [TokenKind.spelling, first.allStand_inner isFirst, limit.allStand_inner isLimit]
  | .range first limit (some step) _ _, ⟨isFirst, isLimit, isStep⟩ => by
    rw [Expr.inner, Word.allStand_enclosed (by decide) (by decide)]
    simp [TokenKind.spelling, first.allStand_inner isFirst, limit.allStand_inner isLimit,
      step.allStand_inner isStep]
  | .call name args _ _ _, ⟨isName, isArgs⟩ => by
    have listed := Word.allStand_listed (Expr.allStand_allWords args isArgs)
    simp [Expr.inner, Word.stands_name isName, listed]
  | .construct name args _ _ _, ⟨isName, isArgs⟩ => by
    have listed := Word.allStand_listed (Expr.allStand_allWords args isArgs)
    simp [Expr.inner, Word.stands_name isName, listed]
  | .member base field _ _ _, ⟨isBase, isName⟩ => by
    simp [Expr.inner, TokenKind.spelling, base.allStand_inner isBase, Word.stands_name isName]
  | .ifElse cond yes no _ _, ⟨isCond, isYes, isNo⟩ => by
    simp [Expr.inner, TokenKind.spelling, cond.allStand_inner isCond, yes.allStand_inner isYes,
      no.allStand_inner isNo]
  | .ifOnly cond yes _ _, ⟨isCond, isYes⟩ => by
    simp [Expr.inner, TokenKind.spelling, cond.allStand_inner isCond, yes.allStand_inner isYes]
  | .foreach element elementType source body _ _ _, ⟨isName, isType, isSource, isBody⟩ => by
    simp [Expr.inner, TokenKind.spelling, Word.stands_name isName, elementType.allStand_words isType,
      source.allStand_inner isSource, body.allStand_inner isBody]
  | .block body _, writable => by simpa [Expr.inner] using body.allStand_inner writable

theorem Expr.allStand_allWords : ∀ exprs : List (Expr .parsed),
    Expr.AllWritable (Number.SpeltBy spell) exprs →
      ∀ words ∈ Expr.allWords spell exprs, Word.AllStand words
  | [], _ => by simp [Expr.allWords]
  | first :: rest, ⟨isFirst, isRest⟩ => by
    rw [Expr.allWords, List.forall_mem_cons, Word.allStand_parens]
    exact ⟨first.allStand_inner isFirst, Expr.allStand_allWords rest isRest⟩

theorem Block.allStand_inner : ∀ body : Block .parsed, body.Writable (Number.SpeltBy spell) →
    Word.AllStand (body.inner spell)
  | ⟨stmts, _, _⟩, writable => Stmt.allStand_allWords stmts writable

theorem Stmt.allStand_words : ∀ stmt : Stmt .parsed, stmt.Writable (Number.SpeltBy spell) →
    Word.AllStand (stmt.words spell)
  | .letIn name type first chained _ _, ⟨isName, isType, isFirst, _, isChained⟩ => by
    have chain : Word.AllStand
        ((Expr.allWords spell chained).flatMap fun words => .of .whereKw :: words) := by
      intro word member
      obtain ⟨words, isBody, member⟩ := List.mem_flatMap.mp member
      have body := Expr.allStand_allWords chained isChained words isBody
      exact (Word.allStand_cons.mpr ⟨Word.stands_of (by decide), body⟩) word member
    simp [Stmt.words, TokenKind.spelling, Word.stands_name isName, type.allStand_words isType,
      first.allStand_inner isFirst, chain]
  | .func name params returns body _ _, ⟨isName, isParams, isReturns, isBody⟩ => by
    simp [Stmt.words, TokenKind.spelling, Word.stands_name isName, Binding.allStand_listed isParams,
      returns.allStand_words isReturns, body.allStand_inner isBody]
  | .record name fields _ _, ⟨isName, isFields⟩ => by
    simp [Stmt.words, TokenKind.spelling, Word.stands_name isName, Binding.allStand_listed isFields]
  | .expr value, writable => by simpa [Stmt.words] using value.allStand_inner writable

theorem Stmt.allStand_allWords : ∀ stmts : List (Stmt .parsed),
    Stmt.AllWritable (Number.SpeltBy spell) stmts → Word.AllStand (Stmt.allWords spell stmts)
  | [], _ => by simp [Stmt.allWords]
  | first :: rest, ⟨isFirst, isRest⟩ => by
    rw [Stmt.allWords, Word.allStand_append]
    exact ⟨first.allStand_words isFirst, Stmt.allStand_allWords rest isRest⟩

end

end Stand

end LetChain
