import LetChain.Proofs.Syntax.Carried

/-! The places that a tree mentions, as a tree of their own: every node with the nodes in it, in the
order in which they are written. -/

namespace LetChain

variable {p : Phase} {f : Span → Span}

/-- A name is given for the places of identifiers. -/
inductive Region where
  | mk (span : Span) (name? : Option String) (parts : List Region)

namespace Region

def span : Region → Span
  | mk span _ _ => span

def name? : Region → Option String
  | mk _ name? _ => name?

def parts : Region → List Region
  | mk _ _ parts => parts

mutual

/-- A region and all that lie in it. -/
def all : Region → List Region
  | mk span name? parts => mk span name? parts :: allOf parts

def allOf : List Region → List Region
  | [] => []
  | first :: rest => first.all ++ allOf rest

end

@[simp] theorem allOf_append (regions more : List Region) :
    allOf (regions ++ more) = allOf regions ++ allOf more := by
  induction regions with
  | nil => rfl
  | cons first rest ih => simp [allOf, ih]

end Region

/-! ### Regions of trees -/

def Ident.region (name : Ident) : Region := ⟨name.span, some name.text, []⟩

mutual

def TypeRef.region : TypeRef → Region
  | ⟨name, args, span⟩ => ⟨span, none, name.region :: TypeRef.regions args⟩

def TypeRef.regions : List TypeRef → List Region
  | [] => []
  | first :: rest => first.region :: TypeRef.regions rest

end

def Binding.regions (b : Binding p) : List Region := [b.name.region, b.type.region]

mutual

def Expr.region : Expr p → Region
  | .number _ span _ => ⟨span, none, []⟩
  | .string _ span _ => ⟨span, none, []⟩
  | .bool _ span _ => ⟨span, none, []⟩
  | .named name _ span _ => ⟨span, none, [name.region]⟩
  | .binary _ lhs rhs span _ => ⟨span, none, [lhs.region, rhs.region]⟩
  | .range first limit none span _ => ⟨span, none, [first.region, limit.region]⟩
  | .range first limit (some step) span _ =>
    ⟨span, none, [first.region, limit.region, step.region]⟩
  | .call name args _ span _ => ⟨span, none, name.region :: Expr.regions args⟩
  | .construct name args _ span _ => ⟨span, none, name.region :: Expr.regions args⟩
  | .member base field _ span _ => ⟨span, none, [base.region, field.region]⟩
  | .ifElse cond yes no span _ => ⟨span, none, [cond.region, yes.region, no.region]⟩
  | .ifOnly cond yes span _ => ⟨span, none, [cond.region, yes.region]⟩
  | .foreach element elementType source body _ span _ =>
    ⟨span, none, [element.region, elementType.region, source.region, body.region]⟩
  | .block body _ => body.region

def Expr.regions : List (Expr p) → List Region
  | [] => []
  | first :: rest => first.region :: Expr.regions rest

def Block.region : Block p → Region
  | ⟨stmts, span, _⟩ => ⟨span, none, Stmt.regions stmts⟩

def Stmt.region : Stmt p → Region
  | .letIn name type first chained span _ =>
    ⟨span, none, name.region :: type.region :: first.region :: Expr.regions chained⟩
  | .func name params returns body span _ =>
    ⟨span, none, name.region :: (params.flatMap Binding.regions ++ [returns.region, body.region])⟩
  | .record name fields span _ => ⟨span, none, name.region :: fields.flatMap Binding.regions⟩
  | .expr value => value.region

def Stmt.regions : List (Stmt p) → List Region
  | [] => []
  | first :: rest => first.region :: Stmt.regions rest

end

attribute [simp] TypeRef.region Expr.region Block.region Stmt.region

def Module.regions (m : Module p) : List Region := Stmt.regions m.stmts

@[simp] theorem TypeRef.regions_eq (types : List TypeRef) :
    TypeRef.regions types = types.map region := by
  induction types with
  | nil => rfl
  | cons first rest ih => simp [TypeRef.regions, ih]

@[simp] theorem Expr.regions_eq (exprs : List (Expr p)) :
    Expr.regions exprs = exprs.map region := by
  induction exprs with
  | nil => rfl
  | cons first rest ih => simp [Expr.regions, ih]

@[simp] theorem Stmt.regions_eq (stmts : List (Stmt p)) :
    Stmt.regions stmts = stmts.map region := by
  induction stmts with
  | nil => rfl
  | cons first rest ih => simp [Stmt.regions, ih]

@[simp] theorem Ident.span_region (name : Ident) : name.region.span = name.span := rfl

@[simp] theorem Block.span_region (body : Block p) : body.region.span = body.span := by
  cases body
  rfl

@[simp] theorem Expr.span_region (e : Expr p) : e.region.span = e.span := by
  cases e with
  | range first limit step span ty => cases step <;> rfl
  | block body ty => exact body.span_region
  | _ => rfl

/-! ### Places that a map leaves alone -/

namespace Region

mutual

def Fixed (f : Span → Span) : Region → Prop
  | mk span _ parts => f span = span ∧ AllFixed f parts

def AllFixed (f : Span → Span) : List Region → Prop
  | [] => True
  | first :: rest => first.Fixed f ∧ AllFixed f rest

end

mutual

theorem fixed_of_all : ∀ region : Region, (∀ inner ∈ region.all, f inner.span = inner.span) →
    region.Fixed f
  | mk span name? parts, stays => by
    rw [all, List.forall_mem_cons] at stays
    exact ⟨stays.1, allFixed_of_all parts stays.2⟩

theorem allFixed_of_all : ∀ regions : List Region,
    (∀ inner ∈ allOf regions, f inner.span = inner.span) → AllFixed f regions
  | [], _ => trivial
  | first :: rest, stays => by
    rw [allOf, List.forall_mem_append] at stays
    exact ⟨fixed_of_all first stays.1, allFixed_of_all rest stays.2⟩

end

theorem allFixed_append {regions more : List Region} :
    AllFixed f (regions ++ more) ↔ AllFixed f regions ∧ AllFixed f more := by
  induction regions with
  | nil => simp [AllFixed]
  | cons first rest ih => simp [AllFixed, ih, and_assoc]

end Region

open Region

theorem Ident.carry_eq_self {name : Ident} (fixed : name.region.Fixed f) :
    name.carry (.ofPlace f) = name := by
  obtain ⟨text, span⟩ := name
  exact congrArg (Ident.mk text) fixed.1

mutual

theorem TypeRef.carry_eq_self : ∀ type : TypeRef, type.region.Fixed f →
    type.carry (.ofPlace f) = type
  | ⟨name, args, span⟩, fixed => by
    obtain ⟨stays, isName, areArgs⟩ := fixed
    rw [TypeRef.carry, Ident.carry_eq_self isName, TypeRef.carryAll_eq_self args areArgs]
    exact congrArg (TypeRef.mk name args) stays

theorem TypeRef.carryAll_eq_self : ∀ types : List TypeRef, AllFixed f (TypeRef.regions types) →
    TypeRef.carryAll (.ofPlace f) types = types
  | [], _ => rfl
  | first :: rest, fixed => by
    rw [TypeRef.carryAll, first.carry_eq_self fixed.1, TypeRef.carryAll_eq_self rest fixed.2]

end

theorem Binding.map_carry_eq_self (bs : List (Binding p))
    (fixed : AllFixed f (bs.flatMap Binding.regions)) :
    bs.map (Binding.carry (.ofPlace f)) = bs := by
  induction bs with
  | nil => rfl
  | cons b rest ih =>
    obtain ⟨isName, isType, areRest⟩ := fixed
    rw [List.map_cons, ih areRest, Binding.carry, Ident.carry_eq_self isName,
      b.type.carry_eq_self isType]

mutual

theorem Expr.carry_eq_self : ∀ e : Expr p, e.region.Fixed f → e.carry (.ofPlace f) = e
  | .number .., fixed | .string .., fixed | .bool .., fixed => by simp [fixed.1]
  | .named name _ _ _, fixed => by
    obtain ⟨stays, isName, -⟩ := fixed
    simp [stays, Ident.carry_eq_self isName]
  | .binary _ lhs rhs _ _, fixed => by
    obtain ⟨stays, isLhs, isRhs, -⟩ := fixed
    simp [stays, lhs.carry_eq_self isLhs, rhs.carry_eq_self isRhs]
  | .range first limit none _ _, fixed => by
    obtain ⟨stays, isFirst, isLimit, -⟩ := fixed
    simp [stays, first.carry_eq_self isFirst, limit.carry_eq_self isLimit]
  | .range first limit (some step) _ _, fixed => by
    obtain ⟨stays, isFirst, isLimit, isStep, -⟩ := fixed
    simp [stays, first.carry_eq_self isFirst, limit.carry_eq_self isLimit,
      step.carry_eq_self isStep]
  | .call name args _ _ _, fixed | .construct name args _ _ _, fixed => by
    obtain ⟨stays, isName, areArgs⟩ := fixed
    rw [Expr.carry, Expr.carryAll_eq_self args areArgs]
    simp [stays, Ident.carry_eq_self isName]
  | .member base field _ _ _, fixed => by
    obtain ⟨stays, isBase, isField, -⟩ := fixed
    simp [stays, base.carry_eq_self isBase, Ident.carry_eq_self isField]
  | .ifElse cond yes no _ _, fixed => by
    obtain ⟨stays, isCond, isYes, isNo, -⟩ := fixed
    simp [stays, cond.carry_eq_self isCond, yes.carry_eq_self isYes, no.carry_eq_self isNo]
  | .ifOnly cond yes _ _, fixed => by
    obtain ⟨stays, isCond, isYes, -⟩ := fixed
    simp [stays, cond.carry_eq_self isCond, yes.carry_eq_self isYes]
  | .foreach element elementType source body _ _ _, fixed => by
    obtain ⟨stays, isElement, isType, isSource, isBody, -⟩ := fixed
    simp [stays, Ident.carry_eq_self isElement, elementType.carry_eq_self isType,
      source.carry_eq_self isSource, body.carry_eq_self isBody]
  | .block body _, fixed => by simp [body.carry_eq_self fixed]

theorem Expr.carryAll_eq_self : ∀ exprs : List (Expr p), AllFixed f (Expr.regions exprs) →
    Expr.carryAll (.ofPlace f) exprs = exprs
  | [], _ => rfl
  | first :: rest, fixed => by
    rw [Expr.carryAll, first.carry_eq_self fixed.1, Expr.carryAll_eq_self rest fixed.2]

theorem Block.carry_eq_self : ∀ body : Block p, body.region.Fixed f →
    body.carry (.ofPlace f) = body
  | ⟨stmts, _, _⟩, fixed => by
    rw [Block.carry, Stmt.carryAll_eq_self stmts fixed.2]
    exact congrArg (Block.mk stmts · _) fixed.1

theorem Stmt.carry_eq_self : ∀ stmt : Stmt p, stmt.region.Fixed f →
    stmt.carry (.ofPlace f) = stmt
  | .letIn name type first chained _ _, fixed => by
    obtain ⟨stays, isName, isType, isFirst, areChained⟩ := fixed
    rw [Stmt.carry, Expr.carryAll_eq_self chained areChained]
    simp [stays, Ident.carry_eq_self isName, type.carry_eq_self isType, first.carry_eq_self isFirst]
  | .func name params returns body _ _, fixed => by
    obtain ⟨stays, isName, parts⟩ := fixed
    obtain ⟨areParams, isReturns, isBody, -⟩ := allFixed_append.mp parts
    simp [stays, Ident.carry_eq_self isName, Binding.map_carry_eq_self params areParams,
      returns.carry_eq_self isReturns, body.carry_eq_self isBody]
  | .record name fields _ _, fixed => by
    obtain ⟨stays, isName, areFields⟩ := fixed
    simp [stays, Ident.carry_eq_self isName, Binding.map_carry_eq_self fields areFields]
  | .expr value, fixed => by simp [value.carry_eq_self fixed]

theorem Stmt.carryAll_eq_self : ∀ stmts : List (Stmt p), AllFixed f (Stmt.regions stmts) →
    Stmt.carryAll (.ofPlace f) stmts = stmts
  | [], _ => rfl
  | first :: rest, fixed => by
    rw [Stmt.carryAll, first.carry_eq_self fixed.1, Stmt.carryAll_eq_self rest fixed.2]

end

theorem Expr.relocate_id (e : Expr p) : e.relocate id = e :=
  e.carry_eq_self (fixed_of_all e.region fun _ _ => rfl)

theorem Module.relocate_eq_self {m : Module p}
    (stays : ∀ region ∈ allOf m.regions, f region.span = region.span) : m.relocate f = m :=
  congrArg Module.mk (Stmt.carryAll_eq_self m.stmts (allFixed_of_all m.regions stays))

end LetChain
