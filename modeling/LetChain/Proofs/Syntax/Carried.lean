import LetChain.Syntax.Tree

/-! Trees that are written differently: every span at another place, every name in other words, and
every type with the names in it. -/

namespace LetChain

structure Wording where
  place : Span → Span
  name : String → String

namespace Wording

/-- Moves spans and leaves names. -/
def ofPlace (f : Span → Span) : Wording := ⟨f, id⟩

@[simp] theorem place_ofPlace (f : Span → Span) (span : Span) : (ofPlace f).place span = f span :=
  rfl

/-- Changes names where they stand. -/
def ofName (f : String → String) : Wording := ⟨id, f⟩

def andThen (w w' : Wording) : Wording := ⟨w'.place ∘ w.place, w'.name ∘ w.name⟩

end Wording

/-- How the decorations of a phase are written differently. -/
structure Carry (p : Phase) extends Wording where
  ty : p.Ty → p.Ty
  blockTy : p.BlockTy → p.BlockTy

namespace Carry

variable {p : Phase}

def ofPlace (f : Span → Span) : Carry p := ⟨.ofPlace f, id, id⟩

@[simp] theorem toWording_ofPlace (f : Span → Span) :
    (ofPlace f : Carry p).toWording = .ofPlace f := rfl

@[simp] theorem ty_ofPlace (f : Span → Span) (ty : p.Ty) : (ofPlace f).ty ty = ty := rfl

def andThen (ρ ρ' : Carry p) : Carry p :=
  ⟨ρ.toWording.andThen ρ'.toWording, ρ'.ty ∘ ρ.ty, ρ'.blockTy ∘ ρ.blockTy⟩

end Carry

def Wording.parsed (w : Wording) : Carry .parsed := ⟨w, id, id⟩

@[simp] theorem Wording.toWording_parsed (w : Wording) : w.parsed.toWording = w := rfl

variable {p : Phase} {w : Wording} {ρ : Carry p}

def Ident.carry (w : Wording) (name : Ident) : Ident := ⟨w.name name.text, w.place name.span⟩

mutual

def TypeRef.carry (w : Wording) : TypeRef → TypeRef
  | ⟨name, args, span⟩ => ⟨name.carry w, TypeRef.carryAll w args, w.place span⟩

def TypeRef.carryAll (w : Wording) : List TypeRef → List TypeRef
  | [] => []
  | first :: rest => first.carry w :: TypeRef.carryAll w rest

end

def Binding.carry (w : Wording) (b : Binding p) : Binding p :=
  ⟨b.name.carry w, b.type.carry w, b.sym⟩

mutual

def Expr.carry (ρ : Carry p) : Expr p → Expr p
  | .number value span ty => .number value (ρ.place span) (ρ.ty ty)
  | .string value span ty => .string value (ρ.place span) (ρ.ty ty)
  | .bool value span ty => .bool value (ρ.place span) (ρ.ty ty)
  | .named name sym span ty => .named (name.carry ρ.toWording) sym (ρ.place span) (ρ.ty ty)
  | .binary op lhs rhs span ty => .binary op (lhs.carry ρ) (rhs.carry ρ) (ρ.place span) (ρ.ty ty)
  | .range first limit none span ty =>
    .range (first.carry ρ) (limit.carry ρ) none (ρ.place span) (ρ.ty ty)
  | .range first limit (some step) span ty =>
    .range (first.carry ρ) (limit.carry ρ) (some (step.carry ρ)) (ρ.place span) (ρ.ty ty)
  | .call name args sym span ty =>
    .call (name.carry ρ.toWording) (Expr.carryAll ρ args) sym (ρ.place span) (ρ.ty ty)
  | .construct name args sym span ty =>
    .construct (name.carry ρ.toWording) (Expr.carryAll ρ args) sym (ρ.place span) (ρ.ty ty)
  | .member base field sym span ty =>
    .member (base.carry ρ) (field.carry ρ.toWording) sym (ρ.place span) (ρ.ty ty)
  | .ifElse cond yes no span ty =>
    .ifElse (cond.carry ρ) (yes.carry ρ) (no.carry ρ) (ρ.place span) (ρ.ty ty)
  | .ifOnly cond yes span ty => .ifOnly (cond.carry ρ) (yes.carry ρ) (ρ.place span) (ρ.ty ty)
  | .foreach element elementType source body sym span ty =>
    .foreach (element.carry ρ.toWording) (elementType.carry ρ.toWording) (source.carry ρ)
      (body.carry ρ) sym (ρ.place span) (ρ.ty ty)
  | .block body ty => .block (body.carry ρ) (ρ.ty ty)

def Expr.carryAll (ρ : Carry p) : List (Expr p) → List (Expr p)
  | [] => []
  | first :: rest => first.carry ρ :: Expr.carryAll ρ rest

def Block.carry (ρ : Carry p) : Block p → Block p
  | ⟨stmts, span, ty⟩ => ⟨Stmt.carryAll ρ stmts, ρ.place span, ρ.blockTy ty⟩

def Stmt.carry (ρ : Carry p) : Stmt p → Stmt p
  | .letIn name type first chained span sym =>
    .letIn (name.carry ρ.toWording) (type.carry ρ.toWording) (first.carry ρ)
      (Expr.carryAll ρ chained) (ρ.place span) sym
  | .func name params returns body span sym =>
    .func (name.carry ρ.toWording) (params.map (Binding.carry ρ.toWording))
      (returns.carry ρ.toWording) (body.carry ρ) (ρ.place span) sym
  | .record name fields span sym =>
    .record (name.carry ρ.toWording) (fields.map (Binding.carry ρ.toWording)) (ρ.place span) sym
  | .expr value => .expr (value.carry ρ)

def Stmt.carryAll (ρ : Carry p) : List (Stmt p) → List (Stmt p)
  | [] => []
  | first :: rest => first.carry ρ :: Stmt.carryAll ρ rest

end

def Module.carry (ρ : Carry p) (m : Module p) : Module p := ⟨Stmt.carryAll ρ m.stmts⟩

attribute [simp] TypeRef.carry Expr.carry Block.carry Stmt.carry

/-! ### Elsewhere -/

/-- Moves everything to one place. -/
def Span.forget (_ : Span) : Span := default

section Elsewhere

variable (f : Span → Span)

def Located.relocate {α : Type} (found : Located α) : Located α := ⟨f found.span, found.value⟩

abbrev TypeRef.relocate (type : TypeRef) : TypeRef := type.carry (.ofPlace f)

abbrev Expr.relocate (e : Expr p) : Expr p := e.carry (.ofPlace f)

abbrev Block.relocate (body : Block p) : Block p := body.carry (.ofPlace f)

abbrev Stmt.relocate (stmt : Stmt p) : Stmt p := stmt.carry (.ofPlace f)

abbrev Module.relocate (m : Module p) : Module p := m.carry (.ofPlace f)

end Elsewhere

/-! ### What it changes -/

@[simp] theorem TypeRef.carryAll_eq (types : List TypeRef) :
    TypeRef.carryAll w types = types.map (carry w) := by
  induction types with
  | nil => rfl
  | cons first rest ih => rw [TypeRef.carryAll, ih, List.map_cons]

@[simp] theorem Expr.carryAll_eq (exprs : List (Expr p)) :
    Expr.carryAll ρ exprs = exprs.map (carry ρ) := by
  induction exprs with
  | nil => rfl
  | cons first rest ih => rw [Expr.carryAll, ih, List.map_cons]

@[simp] theorem Stmt.carryAll_eq (stmts : List (Stmt p)) :
    Stmt.carryAll ρ stmts = stmts.map (carry ρ) := by
  induction stmts with
  | nil => rfl
  | cons first rest ih => rw [Stmt.carryAll, ih, List.map_cons]

theorem Ident.text_ofPlace {f : Span → Span} (name : Ident) :
    (name.carry (.ofPlace f)).text = name.text := rfl

@[simp] theorem Ident.span_carry (name : Ident) : (name.carry w).span = w.place name.span := rfl

@[simp] theorem TypeRef.span_carry (type : TypeRef) : (type.carry w).span = w.place type.span := by
  cases type
  rfl

@[simp] theorem Block.span_carry (body : Block p) : (body.carry ρ).span = ρ.place body.span := by
  cases body
  rfl

theorem Block.ty_carry (body : Block p) : (body.carry ρ).ty = ρ.blockTy body.ty := by
  cases body
  rfl

theorem Expr.carry_range (first limit : Expr p) (step : Option (Expr p)) (span : Span)
    (ty : p.Ty) : (Expr.range first limit step span ty).carry ρ =
      .range (first.carry ρ) (limit.carry ρ) (step.map (carry ρ)) (ρ.place span) (ρ.ty ty) := by
  cases step <;> rfl

@[simp] theorem Expr.span_carry (e : Expr p) : (e.carry ρ).span = ρ.place e.span := by
  cases e with
  | range first limit step span ty => cases step <;> rfl
  | block body ty => exact body.span_carry
  | _ => rfl

theorem Expr.ty_carry (e : Expr p) : (e.carry ρ).ty = ρ.ty e.ty := by
  cases e with
  | range first limit step span ty => cases step <;> rfl
  | _ => rfl

@[simp] theorem Expr.isSelfAssigning_carry (e : Expr p) :
    (e.carry ρ).isSelfAssigning = e.isSelfAssigning := by
  cases e with
  | range first limit step span ty => cases step <;> rfl
  | _ => rfl

/-! ### Twice -/

section Twice

variable {w' : Wording} {ρ' : Carry p}

mutual

theorem TypeRef.carry_carry : ∀ type : TypeRef, (type.carry w).carry w' = type.carry (w.andThen w')
  | ⟨name, args, span⟩ => by
    rw [carry, carry, carry, TypeRef.carryAll_carry args]
    rfl

theorem TypeRef.carryAll_carry : ∀ types : List TypeRef,
    TypeRef.carryAll w' (TypeRef.carryAll w types) = TypeRef.carryAll (w.andThen w') types
  | [] => rfl
  | first :: rest => by
    rw [carryAll, carryAll, carryAll, first.carry_carry, TypeRef.carryAll_carry rest]

end

theorem Binding.carry_carry (bs : List (Binding p)) :
    (bs.map (Binding.carry w)).map (Binding.carry w') = bs.map (Binding.carry (w.andThen w')) := by
  rw [List.map_map]
  refine List.map_congr_left fun b _ => ?_
  rw [Function.comp, carry, carry, carry, TypeRef.carry_carry]
  rfl

mutual

theorem Expr.carry_carry : ∀ e : Expr p, (e.carry ρ).carry ρ' = e.carry (ρ.andThen ρ')
  | .number .. | .string .. | .bool .. | .named .. => rfl
  | .binary _ lhs rhs _ _ => by
    rw [Expr.carry, Expr.carry, Expr.carry, lhs.carry_carry, rhs.carry_carry]
    rfl
  | .range first limit none _ _ => by
    rw [Expr.carry, Expr.carry, Expr.carry, first.carry_carry, limit.carry_carry]
    rfl
  | .range first limit (some step) _ _ => by
    rw [Expr.carry, Expr.carry, Expr.carry, first.carry_carry, limit.carry_carry, step.carry_carry]
    rfl
  | .call _ args _ _ _ | .construct _ args _ _ _ => by
    rw [Expr.carry, Expr.carry, Expr.carry, Expr.carryAll_carry args]
    rfl
  | .member base _ _ _ _ => by
    rw [Expr.carry, Expr.carry, Expr.carry, base.carry_carry]
    rfl
  | .ifElse cond yes no _ _ => by
    rw [Expr.carry, Expr.carry, Expr.carry, cond.carry_carry, yes.carry_carry, no.carry_carry]
    rfl
  | .ifOnly cond yes _ _ => by
    rw [Expr.carry, Expr.carry, Expr.carry, cond.carry_carry, yes.carry_carry]
    rfl
  | .foreach _ type source body _ _ _ => by
    rw [Expr.carry, Expr.carry, Expr.carry, type.carry_carry, source.carry_carry, body.carry_carry]
    rfl
  | .block body _ => by
    rw [Expr.carry, Expr.carry, Expr.carry, body.carry_carry]
    rfl

theorem Expr.carryAll_carry : ∀ exprs : List (Expr p),
    Expr.carryAll ρ' (Expr.carryAll ρ exprs) = Expr.carryAll (ρ.andThen ρ') exprs
  | [] => rfl
  | first :: rest => by
    rw [Expr.carryAll, Expr.carryAll, Expr.carryAll, first.carry_carry, Expr.carryAll_carry rest]

theorem Block.carry_carry : ∀ body : Block p, (body.carry ρ).carry ρ' = body.carry (ρ.andThen ρ')
  | ⟨stmts, _, _⟩ => by
    rw [Block.carry, Block.carry, Block.carry, Stmt.carryAll_carry stmts]
    rfl

theorem Stmt.carry_carry : ∀ stmt : Stmt p, (stmt.carry ρ).carry ρ' = stmt.carry (ρ.andThen ρ')
  | .letIn _ type first chained _ _ => by
    rw [Stmt.carry, Stmt.carry, Stmt.carry, type.carry_carry, first.carry_carry,
      Expr.carryAll_carry chained]
    rfl
  | .func _ params returns body _ _ => by
    rw [Stmt.carry, Stmt.carry, Stmt.carry, Binding.carry_carry params, returns.carry_carry,
      body.carry_carry]
    rfl
  | .record _ fields _ _ => by
    rw [Stmt.carry, Stmt.carry, Stmt.carry, Binding.carry_carry fields]
    rfl
  | .expr value => by rw [Stmt.carry, Stmt.carry, Stmt.carry, value.carry_carry]

theorem Stmt.carryAll_carry : ∀ stmts : List (Stmt p),
    Stmt.carryAll ρ' (Stmt.carryAll ρ stmts) = Stmt.carryAll (ρ.andThen ρ') stmts
  | [] => rfl
  | first :: rest => by
    rw [Stmt.carryAll, Stmt.carryAll, Stmt.carryAll, first.carry_carry, Stmt.carryAll_carry rest]

end

theorem Module.carry_carry (m : Module p) : (m.carry ρ).carry ρ' = m.carry (ρ.andThen ρ') :=
  congrArg Module.mk (Stmt.carryAll_carry m.stmts)

end Twice

end LetChain
