import LetChain.Proofs.Lowering.Parts
import LetChain.Proofs.Lowering.Written

/-! Lowering the body of a typed function comes to an end: with code, or with an error for which there
is a reason in the body. -/

namespace LetChain

/-- What holds while a draft is being written: only the labels that are `pending` lead nowhere yet. -/
structure Lowering.Open (pending : List Label) (s : Lowering) : Prop where
  known : ∀ label ∈ pending, label < s.draft.labels.size
  unmarked : ∀ label, s.draft.labels[label]? = some none → label ∈ pending

def Lowering.Holds (set : List SymbolId) (s : Lowering) : Prop :=
  ∀ sym ∈ set, ∃ slot, s.slots[sym]? = some slot

/-- Why writing the code of some parts may stop: more is needed than a routine may have, or one of the
parts has no code. -/
inductive Stops (layout : Layout) (draft : Draft) (cost : Resource → Nat) (parts : List Part) :
    Halt LowerError → Prop
  | tooMany {resource} : resource.limit < draft.used resource + cost resource →
      Stops layout draft cost parts (.error (.tooMany resource.text))
  | noEquality {part ty} : part ∈ parts → part.ComparesSequences →
      Stops layout draft cost parts (.error (.noEquality ty))
  | unresolved {part name} : part ∈ parts → part.Missing layout →
      Stops layout draft cost parts (.error (.unresolved name))

theorem Stops.widen {layout : Layout} {draft draft' : Draft} {cost cost' : Resource → Nat}
    {parts parts' : List Part} {halt : Halt LowerError} (stops : Stops layout draft cost parts halt)
    (more : ∀ resource, draft.used resource + cost resource ≤ draft'.used resource + cost' resource)
    (included : parts ⊆ parts') : Stops layout draft' cost' parts' halt := by
  cases stops with
  | tooMany exceeded => exact .tooMany (Nat.lt_of_lt_of_le exceeded (more _))
  | noEquality member compares => exact .noEquality (included member) compares
  | unresolved member missing => exact .unresolved (included member) missing

def Lowers (layout : Layout) (act : Lower Unit) (pending pending' : List Label)
    (set : List SymbolId) (cost : Resource → Nat) (parts : List Part) : Prop :=
  ∀ s : Lowering, s.Open pending → s.Holds set →
    (∃ s', act s = .ok ((), s') ∧ s'.Open pending' ∧ (∀ set, s.Holds set → s'.Holds set) ∧
      (∀ resource, s'.draft.used resource = s.draft.used resource + cost resource) ∧
      ∀ part ∈ parts, ¬part.ComparesSequences) ∨
    ∃ halt, act s = .error halt ∧ Stops layout s.draft cost parts halt

namespace Lowers

variable {layout : Layout} {pending pending' pending'' : List Label} {set : List SymbolId}
  {cost cost' : Resource → Nat} {parts parts' : List Part}

theorem nil : Lowers layout (pure ()) pending pending set (fun _ => 0) [] := by
  intro s isOpen _
  exact Or.inl ⟨s, rfl, isOpen, fun _ => id, fun _ => rfl, nofun⟩

theorem subset {act : Lower Unit} {set' : List SymbolId}
    (lowers : Lowers layout act pending pending' set cost parts) (included : set ⊆ set') :
    Lowers layout act pending pending' set' cost parts := by
  intro s isOpen holds
  exact lowers s isOpen fun sym member => holds sym (included member)

theorem bind {act rest : Lower Unit} (first : Lowers layout act pending pending' set cost parts)
    (next : Lowers layout rest pending' pending'' set cost' parts') :
    Lowers layout (act >>= fun _ => rest) pending pending'' set
      (fun resource => cost resource + cost' resource) (parts ++ parts') := by
  intro s isOpen holds
  rcases first s isOpen holds with ⟨s₁, ran, isOpen₁, keeps, used, plain⟩ | ⟨halt, failed, stops⟩
  · have same : (act >>= fun _ => rest) s = rest s₁ := by
      change act s >>= (fun p => rest p.2) = _
      rw [ran]
      rfl
    rw [same]
    rcases next s₁ isOpen₁ (keeps set holds) with
      ⟨s₂, ran', isOpen₂, keeps', used', plain'⟩ | ⟨halt, failed, stops⟩
    · refine Or.inl ⟨s₂, ran', isOpen₂, fun set has => keeps' set (keeps set has), fun resource => ?_,
        fun part member => ?_⟩
      · rw [used', used, Nat.add_assoc]
      · rcases List.mem_append.mp member with here | there
        · exact plain part here
        · exact plain' part there
    · refine Or.inr ⟨halt, failed, stops.widen (fun resource => ?_) (List.subset_append_right _ _)⟩
      have := used resource
      omega
  · refine Or.inr ⟨halt, ?_, stops.widen (fun resource => ?_) (List.subset_append_left _ _)⟩
    · change act s >>= (fun p => rest p.2) = _
      rw [failed]
      rfl
    · omega

theorem lift {α : Type} {result : Layout.Lay α} {next : α → Lower Unit}
    (rest : ∀ a, result = .ok a → Lowers layout (next a) pending pending' set cost parts)
    (stops : ∀ halt, result = .error halt → ∀ draft, Stops layout draft cost parts halt) :
    Lowers layout (liftM result >>= next) pending pending' set cost parts := by
  intro s isOpen holds
  cases found : result with
  | ok a => exact rest a found s isOpen holds
  | error halt => exact Or.inr ⟨halt, rfl, stops halt found s.draft⟩

theorem emit (instr : Instr) :
    Lowers layout (Lower.emit instr) pending pending set (fun _ => 0) [] := by
  intro s isOpen _
  refine Or.inl ⟨_, rfl, ⟨isOpen.known, isOpen.unmarked⟩, fun _ has => has, ?_, nofun⟩
  intro resource
  cases resource <;> rfl

def one (resource other : Resource) : Nat :=
  match resource, other with
  | .locals, .locals | .iterators, .iterators | .labels, .labels => 1
  | _, _ => 0

theorem allocate {α : Type} {act : Lower α} {next : α → Lower Unit} {resource : Resource}
    {pending₁ : α → List Label} {good : α → Prop} (new : List SymbolId)
    (makes : ∀ s : Lowering, s.Open pending →
      (∃ a s₁, act s = .ok (a, s₁) ∧ good a ∧ s₁.Open (pending₁ a) ∧
        (∀ set, s.Holds set → s₁.Holds (new ++ set)) ∧
        ∀ other, s₁.draft.used other = s.draft.used other + one resource other) ∨
      act s = .error (.error (.tooMany resource.text)) ∧ resource.limit ≤ s.draft.used resource)
    (rest : ∀ a, good a → Lowers layout (next a) (pending₁ a) pending' (new ++ set) cost parts) :
    Lowers layout (act >>= next) pending pending' set
      (fun other => one resource other + cost other) parts := by
  intro s isOpen holds
  have unfolded : (act >>= next) s = act s >>= fun p => next p.1 p.2 := rfl
  rw [unfolded]
  rcases makes s isOpen with ⟨a, s₁, made, isGood, isOpen₁, keeps, used⟩ | ⟨full, exceeded⟩
  · rw [made]
    change (∃ s', next a s₁ = _ ∧ _) ∨ ∃ halt, next a s₁ = _ ∧ _
    rcases rest a isGood s₁ isOpen₁ (keeps set holds) with
      ⟨s', ran, isOpen', keeps', usedRest, plain⟩ | ⟨halt, failed, stops⟩
    · refine Or.inl ⟨s', ran, isOpen', fun set has sym member => ?_, fun other => ?_, plain⟩
      · exact keeps' _ (keeps set has) sym (List.mem_append_right _ member)
      · rw [usedRest, used, Nat.add_assoc]
    · refine Or.inr ⟨halt, failed, stops.widen (fun other => ?_) (List.Subset.refl _)⟩
      have := used other
      omega
  · rw [full]
    refine Or.inr ⟨_, rfl, .tooMany ?_⟩
    have : one resource resource = 1 := by cases resource <;> rfl
    omega

theorem newLabel {next : Label → Lower Unit}
    (rest : ∀ label, label ∉ pending →
      Lowers layout (next label) (label :: pending) pending' set cost parts) :
    Lowers layout (Lower.newLabel >>= next) pending pending' set
      (fun other => one .labels other + cost other) parts := by
  refine allocate [] ?_ rest
  rintro ⟨draft, slots⟩ isOpen
  by_cases room : draft.labels.size < Draft.maxLabels
  · refine Or.inl ⟨draft.labels.size, ⟨{ draft with labels := draft.labels.push none }, slots⟩, ?_,
      fun member => Nat.lt_irrefl _ (isOpen.known _ member), ⟨?_, ?_⟩, fun _ has => has, ?_⟩
    · simp only [Lower.newLabel, Draft.newLabel, if_pos room]
    · intro label member
      rw [Array.size_push]
      rcases List.mem_cons.mp member with rfl | older
      · exact Nat.lt_succ_self _
      · exact Nat.lt_succ_of_lt (isOpen.known label older)
    · intro label nowhere
      rw [Array.getElem?_push] at nowhere
      split at nowhere
      · rename_i same
        rw [same]
        exact List.mem_cons_self
      · exact List.mem_cons_of_mem _ (isOpen.unmarked label nowhere)
    · intro other
      cases other <;> simp [Draft.used, one]
  · refine Or.inr ⟨?_, Nat.le_of_not_lt room⟩
    simp only [Lower.newLabel, Draft.newLabel, if_neg room]
    rfl

theorem newLocal {sym : SymbolId} {next : Nat → Lower Unit}
    (rest : ∀ slot, Lowers layout (next slot) pending pending' (sym :: set) cost parts) :
    Lowers layout (Lower.newLocal sym >>= next) pending pending' set
      (fun other => one .locals other + cost other) parts := by
  refine allocate [sym] ?_ fun slot (_ : True) => rest slot
  rintro ⟨draft, slots⟩ isOpen
  by_cases room : draft.locals < Draft.maxSlots
  · refine Or.inl ⟨draft.locals,
      ⟨{ draft with locals := draft.locals + 1 }, slots.insert sym draft.locals⟩, ?_, trivial,
      ⟨isOpen.known, isOpen.unmarked⟩, ?_, ?_⟩
    · simp only [Lower.newLocal, Draft.newLocal, if_pos room]
    · intro set has other member
      rw [Std.HashMap.getElem?_insert]
      split
      · exact ⟨_, rfl⟩
      · rename_i different
        rcases List.mem_cons.mp member with rfl | older
        · simp at different
        · exact has other older
    · intro other
      cases other <;> simp [Draft.used, one]
  · refine Or.inr ⟨?_, Nat.le_of_not_lt room⟩
    simp only [Lower.newLocal, Draft.newLocal, if_neg room]
    rfl

theorem newIterator {next : Nat → Lower Unit}
    (rest : ∀ slot, Lowers layout (next slot) pending pending' set cost parts) :
    Lowers layout (Lower.newIterator >>= next) pending pending' set
      (fun other => one .iterators other + cost other) parts := by
  refine allocate [] ?_ fun slot (_ : True) => rest slot
  rintro ⟨draft, slots⟩ isOpen
  by_cases room : draft.iterators < Draft.maxSlots
  · refine Or.inl ⟨draft.iterators, ⟨{ draft with iterators := draft.iterators + 1 }, slots⟩, ?_,
      trivial, ⟨isOpen.known, isOpen.unmarked⟩, fun _ has => has, ?_⟩
    · simp only [Lower.newIterator, Draft.newIterator, if_pos room]
    · intro other
      cases other <;> simp [Draft.used, one]
  · refine Or.inr ⟨?_, Nat.le_of_not_lt room⟩
    simp only [Lower.newIterator, Draft.newIterator, if_neg room]
    rfl

theorem mark (before : List Label) {after : List Label} {label : Label} :
    Lowers layout (Lower.mark label) (before ++ label :: after) (before ++ after) set
      (fun _ => 0) [] := by
  rintro ⟨draft, slots⟩ isOpen _
  have bound : label < draft.labels.size := isOpen.known label (by simp)
  refine Or.inl ⟨⟨{ draft with
      code := draft.code.push (.mark label),
      labels := draft.labels.setIfInBounds label (some draft.code.size) }, slots⟩, ?_, ?_, fun _ has => has,
    ?_, nofun⟩
  · simp only [Lower.mark, Draft.mark, if_pos bound]
  · refine ⟨fun other member => ?_, fun other nowhere => ?_⟩
    · rw [Array.size_setIfInBounds]
      apply isOpen.known
      rcases List.mem_append.mp member with here | there
      · exact List.mem_append_left _ here
      · exact List.mem_append_right _ (List.mem_cons_of_mem _ there)
    · by_cases same : label = other
      · subst same
        simp [bound] at nowhere
      · rw [Array.getElem?_setIfInBounds_ne same] at nowhere
        have older := isOpen.unmarked other nowhere
        simpa [Ne.symm same] using older
  · intro resource
    cases resource <;> simp [Draft.used]

theorem box (op : Operator) (ty : Ty) :
    Lowers layout (Lower.boxOperand op ty) pending pending set (fun _ => 0) [] := by
  unfold Lower.boxOperand
  split
  · exact emit _
  · exact nil

theorem node {act : Lower Unit} {part : Part}
    (lowers : Lowers layout act pending pending' set cost parts)
    (plain : ¬part.ComparesSequences) (within : parts ⊆ part :: parts') (all : parts' ⊆ parts)
    (costs : ∀ resource, cost resource = part.cost resource + Part.costs parts' resource) :
    Lowers layout act pending pending' set (Part.costs (part :: parts')) (part :: parts') := by
  have same : cost = Part.costs (part :: parts') := by
    funext resource
    rw [costs, Part.costs_cons]
  intro s isOpen holds
  rcases lowers s isOpen holds with
    ⟨s', ran, isOpen', keeps, used, others⟩ | ⟨halt, failed, stops⟩
  · refine Or.inl ⟨s', ran, isOpen', keeps, same ▸ used, fun other member => ?_⟩
    rcases List.mem_cons.mp member with rfl | below
    · exact plain
    · exact others other (all below)
  · exact Or.inr ⟨halt, failed, (same ▸ stops).widen (fun _ => Nat.le_refl _) within⟩

theorem of_eq {act : Lower Unit} (lowers : Lowers layout act pending pending' set cost parts)
    (same : parts = parts') (costs : ∀ resource, cost resource = Part.costs parts' resource) :
    Lowers layout act pending pending' set (Part.costs parts') parts' := by
  subst same
  exact (funext costs : cost = Part.costs parts) ▸ lowers

end Lowers

structure Part.Known (resolved : Resolved) (owner : SymbolId) (part : Part) : Prop where
  decorated : Node.Decorated resolved.globals ⟨some owner, part⟩
  bound : ∀ id ∈ part.symbols, id < resolved.symbols.size

section Symbols

variable {resolved : Resolved} {layout : Layout} {sym : SymbolId}

theorem Layout.symbol_eq {symbols : Symbols} (bound : sym < symbols.size) :
    Layout.symbol symbols sym = .ok (symbols.get sym) := by
  simp [Layout.symbol, Symbols.get, Array.getD_eq_getD_getElem?, bound]

theorem Layout.unresolved_eq {α : Type} {symbols : Symbols} (bound : sym < symbols.size) :
    (Layout.unresolved symbols sym : Layout.Lay α) =
      .error (.error (.unresolved (symbols.get sym).name)) := by
  rw [Layout.unresolved, Layout.symbol_eq bound]
  rfl

theorem Resolved.kind_eq {kind : SymbolKind} (same : (resolved.globals.symbol sym).kind = kind)
    (notFunction : kind.role ≠ "function") : (resolved.symbols.get sym).kind = kind := by
  simp only [Resolved.globals, Symbol.forgetScope] at same
  cases found : (resolved.symbols.get sym).kind with
  | function params returns scope =>
    rw [found] at same
    subst same
    exact absurd rfl notFunction
  | _ =>
    rw [found] at same
    exact same

end Symbols

/-! ### Trees -/

section Trees

open Lowers Typing

variable {resolved : Resolved} {layout : Layout} {owner : SymbolId}

theorem load_lowers {sym : SymbolId} {set : List SymbolId} {pending : List Label}
    (readable : Readable resolved.globals owner set sym) (bound : sym < resolved.symbols.size) :
    Lowers layout (Lower.load resolved.symbols sym) pending pending set (fun _ => 0) [] := by
  unfold Lower.load
  rw [Layout.symbol_eq bound]
  refine lift (fun found same => ?_) nofun
  cases same
  cases readable with
  | param isFunction place kind =>
    rw [Resolved.kind_eq kind (by simp [SymbolKind.role])]
    exact emit _
  | localVar kind member =>
    rw [Resolved.kind_eq kind (by decide)]
    intro s isOpen holds
    obtain ⟨slot, present⟩ := holds sym member
    simp only [Stateful.get_bind, present]
    exact emit (.loadLocal slot) s isOpen holds

theorem number_lowers {sym : SymbolId} (part : Part) {ids : Std.HashMap SymbolId Nat}
    {set : List SymbolId} {pending : List Label} (instr : Nat → Instr)
    (bound : sym < resolved.symbols.size) (plain : ¬part.ComparesSequences)
    (missing : ids[sym]? = none → part.Missing layout) :
    Lowers layout (do
        let id ← (match ids[sym]? with
          | some id => .ok id
          | none => Layout.unresolved resolved.symbols sym : Layout.Lay Nat)
        Lower.emit (instr id)) pending pending set (fun _ => 0) [part] := by
  refine lift (fun id _ => ?_) (fun halt failed draft => ?_)
  · have emitted : Lowers layout (Lower.emit (instr id)) pending pending set (fun _ => 0) [] := emit _
    intro s isOpen holds
    rcases emitted s isOpen holds with ⟨s', ran, isOpen', keeps, used, -⟩ | ⟨halt, failed, -⟩
    · exact Or.inl ⟨s', ran, isOpen', keeps, used, fun other member => List.mem_singleton.mp member ▸ plain⟩
    · cases failed
  · cases present : ids[sym]? with
    | some id =>
      rw [present] at failed
      cases failed
    | none =>
      rw [present, Layout.unresolved_eq bound] at failed
      cases failed
      exact .unresolved List.mem_cons_self (missing present)

theorem equality_error {negated : Bool} {ty : Ty} {error : LowerError}
    (ofValues : ty.OfValues resolved.globals.symbol)
    (failed : Lower.equality negated ty = .error error) :
    error = .noEquality ty ∧ ∃ args, ty = .seqOf args := by
  cases ofValues with
  | seqOf =>
    cases failed
    exact ⟨rfl, _, rfl⟩
  | _ => cases failed

theorem binaryInstr_error {op : Operator} {lhs rhs : Expr .typed} {span : Span} {ty : Ty}
    {halt : Halt LowerError} (ofValues : lhs.ty.OfValues resolved.globals.symbol)
    (failed : (Lower.binaryInstr op lhs.ty).mapError Halt.error = .error halt) :
    halt = .error (.noEquality lhs.ty) ∧
      (Part.expr (.binary op lhs rhs span ty)).ComparesSequences := by
  cases chosen : Lower.binaryInstr op lhs.ty with
  | ok instr =>
    rw [chosen] at failed
    cases failed
  | error error =>
    rw [chosen] at failed
    cases failed
    cases op with
    | eq =>
      obtain ⟨rfl, isSeq⟩ := equality_error ofValues chosen
      exact ⟨rfl, Or.inl rfl, isSeq⟩
    | ne =>
      obtain ⟨rfl, isSeq⟩ := equality_error ofValues chosen
      exact ⟨rfl, Or.inr rfl, isSeq⟩
    | _ => cases chosen

theorem binaryInstr_plain {op : Operator} {lhs rhs : Expr .typed} {span : Span} {ty : Ty}
    {instr : BinaryInstr}
    (chosen : Lower.binaryInstr op lhs.ty = .ok instr) :
    ¬(Part.expr (.binary op lhs rhs span ty)).ComparesSequences := by
  rintro ⟨isEquality, args, isSeq⟩
  rcases isEquality with rfl | rfl
  · simp [Lower.binaryInstr, Lower.equality, isSeq] at chosen
  · simp [Lower.binaryInstr, Lower.equality, isSeq] at chosen

/-! Each form of the tree is written if its parts are. -/

section Forms

variable (layout : Layout) (symbols : Symbols) (set : List SymbolId) (pending : List Label)

abbrev ExprLowers (e : Expr .typed) : Prop :=
  Lowers layout (Lower.lowerExpr layout symbols e) pending pending set (Part.costs e.parts) e.parts

abbrev ExprsLower (es : List (Expr .typed)) : Prop :=
  Lowers layout (Lower.lowerExprs layout symbols es) pending pending set
    (Part.costs (Expr.allParts es)) (Expr.allParts es)

abbrev ChainLowers (slot : Nat) (bodies : List (Expr .typed)) : Prop :=
  Lowers layout (Lower.lowerChain layout symbols slot bodies) pending pending set
    (Part.costs (Expr.allParts bodies)) (Expr.allParts bodies)

abbrev BlockLowers (body : Block .typed) : Prop :=
  Lowers layout (Lower.lowerBlock layout symbols body) pending pending set
    (Part.costs body.parts) body.parts

abbrev StmtsLower (stmts : List (Stmt .typed)) : Prop :=
  Lowers layout (Lower.lowerStmts layout symbols stmts) pending pending set
    (Part.costs (Stmt.allParts stmts)) (Stmt.allParts stmts)

end Forms

section Exprs

variable {symbols : Symbols} {set : List SymbolId} {pending : List Label} {span : Span} {ty : Ty}

theorem binary_lowers {op : Operator} {lhs rhs : Expr .typed}
    (ofValues : lhs.ty.OfValues resolved.globals.symbol)
    (left : ExprLowers layout symbols set pending lhs)
    (right : ExprLowers layout symbols set pending rhs) :
    ExprLowers layout symbols set pending (.binary op lhs rhs span ty) := by
  rw [ExprLowers, Expr.parts, Lower.lowerExpr]
  refine lift (fun instr chosen => ?_) (fun halt failed draft => ?_)
  · have operands := left.bind ((box op lhs.ty).bind (right.bind
      ((box op rhs.ty).bind (emit (.binary instr)))))
    exact operands.node (binaryInstr_plain (Stateful.mapError_eq_ok.mp chosen)) (by simp)
      (by simp) (by simp [Part.cost])
  · obtain ⟨rfl, compares⟩ := binaryInstr_error ofValues failed
    exact .noEquality List.mem_cons_self compares

theorem range_lowers {first limit : Expr .typed}
    (isFirst : ExprLowers layout symbols set pending first)
    (isLimit : ExprLowers layout symbols set pending limit) :
    ExprLowers layout symbols set pending (.range first limit none span ty) := by
  rw [ExprLowers, Expr.parts, Lower.lowerExpr, Lower.lowerStep]
  have bounds := isFirst.bind (isLimit.bind ((emit (.pushNumber 1)).bind (emit .generateList)))
  exact bounds.node nofun (by simp) (by simp) (by simp [Part.cost])

theorem rangeBy_lowers {first limit step : Expr .typed}
    (isFirst : ExprLowers layout symbols set pending first)
    (isLimit : ExprLowers layout symbols set pending limit)
    (isStep : ExprLowers layout symbols set pending step) :
    ExprLowers layout symbols set pending (.range first limit (some step) span ty) := by
  rw [ExprLowers, Expr.parts, Lower.lowerExpr, Lower.lowerStep]
  have bounds := isFirst.bind (isLimit.bind (isStep.bind (emit .generateList)))
  exact bounds.node nofun (by simp) (by simp) (by simp [Part.cost])

theorem call_lowers {name : Ident} {args : List (Expr .typed)} {sym : SymbolId}
    (bound : sym < resolved.symbols.size)
    (areArgs : ExprsLower layout resolved.symbols set pending args) :
    ExprLowers layout resolved.symbols set pending (.call name args sym span ty) := by
  rw [ExprLowers, Expr.parts, Lower.lowerExpr]
  have called := areArgs.bind (number_lowers (.expr (.call name args sym span ty)) .call bound
    nofun fun missing => missing)
  exact called.node nofun (by simp) (by simp) (by simp [Part.cost])

theorem construct_lowers {name : Ident} {args : List (Expr .typed)} {sym : SymbolId}
    (bound : sym < resolved.symbols.size)
    (areArgs : ExprsLower layout resolved.symbols set pending args) :
    ExprLowers layout resolved.symbols set pending (.construct name args sym span ty) := by
  rw [ExprLowers, Expr.parts, Lower.lowerExpr]
  have made := areArgs.bind (number_lowers (.expr (.construct name args sym span ty)) .construct
    bound nofun fun missing => missing)
  exact made.node nofun (by simp) (by simp) (by simp [Part.cost])

theorem member_lowers {base : Expr .typed} {field : Ident} {sym record : SymbolId} {index : Nat}
    {text : String} (bound : sym < resolved.symbols.size)
    (recordBound : record < resolved.symbols.size) (baseType : base.ty = .record record text)
    (kind : (resolved.globals.symbol sym).kind = .field record index)
    (isBase : ExprLowers layout resolved.symbols set pending base) :
    ExprLowers layout resolved.symbols set pending (.member base field sym span ty) := by
  rw [ExprLowers, Expr.parts, Lower.lowerExpr]
  have loads : Lowers layout (Lower.loadField layout resolved.symbols sym) pending pending
      set (fun _ => 0) [.expr (.member base field sym span ty)] := by
    unfold Lower.loadField
    rw [Layout.symbol_eq bound]
    refine lift (fun found same => ?_) nofun
    cases same
    rw [Resolved.kind_eq kind (by simp [SymbolKind.role])]
    exact number_lowers _ (.loadField · index) recordBound nofun fun missing =>
      ⟨record, _, baseType, missing⟩
  exact (isBase.bind loads).node nofun (by simp) (by simp) (by simp [Part.cost])

theorem ifElse_lowers {cond : Expr .typed} {yes no : Block .typed}
    (isCond : ∀ pending, ExprLowers layout symbols set pending cond)
    (isYes : ∀ pending, BlockLowers layout symbols set pending yes)
    (isNo : ∀ pending, BlockLowers layout symbols set pending no) :
    ExprLowers layout symbols set pending (.ifElse cond yes no span ty) := by
  rw [ExprLowers, Expr.parts, Lower.lowerExpr]
  have lowered (otherwise done : Label) := (isCond (done :: otherwise :: pending)).bind
    ((emit (.branchIfFalse otherwise)).bind ((isYes _).bind ((emit (.branch done)).bind
      ((mark [done]).bind ((isNo _).bind (mark []))))))
  refine (newLabel fun otherwise _ => newLabel fun done _ => lowered otherwise done).node nofun
    (by simp) (by simp) fun resource => ?_
  cases resource <;> simp [Part.cost, one]
  omega

end Exprs

section Chains

variable {symbols : Symbols} {set : List SymbolId} {pending : List Label} {span : Span} {ty : Ty}
  {slot : Nat} {rest : List (Expr .typed)}

theorem chainIf_lowers {cond : Expr .typed} {yes : Block .typed}
    (isCond : ∀ pending, ExprLowers layout symbols set pending cond)
    (isYes : ∀ pending, BlockLowers layout symbols set pending yes)
    (areRest : ChainLowers layout symbols set pending slot rest) :
    ChainLowers layout symbols set pending slot (.ifOnly cond yes span ty :: rest) := by
  rw [ChainLowers, Lower.lowerChain, Expr.allParts, Expr.parts]
  have lowered (done : Label) := (isCond (done :: pending)).bind
    ((emit (.branchIfFalse done)).bind ((isYes _).bind ((emit (.storeLocal slot)).bind
      ((mark []).bind areRest))))
  refine (newLabel fun done _ => lowered done).node nofun (by simp) (by simp) fun resource => ?_
  cases resource <;> simp [Part.cost, one]

theorem chainForeach_lowers {element : Ident} {elementType : TypeRef} {source : Expr .typed}
    {body : Block .typed} {sym : SymbolId}
    (isSource : ∀ pending, ExprLowers layout symbols set pending source)
    (isBody : ∀ pending, BlockLowers layout symbols (sym :: set) pending body)
    (areRest : ChainLowers layout symbols set pending slot rest) :
    ChainLowers layout symbols set pending slot
      (.foreach element elementType source body sym span ty :: rest) := by
  rw [ChainLowers, Lower.lowerChain, Expr.allParts, Expr.parts]
  have visible := List.subset_cons_self sym set
  have lowered (iterator slot' : Nat) (top exit : Label) :=
    ((isSource (exit :: top :: pending)).subset visible).bind ((emit (.acquire iterator)).bind
      ((mark [exit]).bind ((emit (.advance iterator exit)).bind ((emit (.storeLocal slot')).bind
        ((isBody _).bind ((emit (.storeLocal slot)).bind ((emit (.branch top)).bind
          ((mark []).bind ((emit (.release iterator)).bind (areRest.subset visible))))))))))
  refine (newIterator fun iterator => newLocal fun slot' => newLabel fun top _ =>
    newLabel fun exit _ => lowered iterator slot' top exit).node nofun (by simp) (by simp)
    fun resource => ?_
  cases resource <;> simp [Part.cost, one]
  omega

end Chains

section Stmts

variable {symbols : Symbols} {set : List SymbolId} {pending : List Label} {span : Span}
  {rest : List (Stmt .typed)}

theorem let_lowers {name : Ident} {type : TypeRef} {first : Expr .typed}
    {chained : List (Expr .typed)} {sym : SymbolId}
    (isFirst : ExprLowers layout symbols set pending first)
    (areChained : ∀ slot, ChainLowers layout symbols (sym :: set) pending slot chained)
    (areRest : StmtsLower layout symbols (sym :: set) pending rest) :
    StmtsLower layout symbols set pending (.letIn name type first chained span sym :: rest) := by
  rw [StmtsLower, Stmt.allParts, Stmt.parts, Lower.lowerStmts]
  have lowered (slot : Nat) := (isFirst.subset (List.subset_cons_self sym set)).bind
    ((emit (.storeLocal slot)).bind ((areChained slot).bind areRest))
  refine (newLocal lowered).node nofun (by simp) (by simp) fun resource => ?_
  cases resource <;> simp [Part.cost, one]

theorem exprStmt_lowers {value : Expr .typed} (isValue : ExprLowers layout symbols set pending value)
    (areRest : StmtsLower layout symbols set pending rest) :
    StmtsLower layout symbols set pending (.expr value :: rest) := by
  rw [StmtsLower, Stmt.allParts, Stmt.parts, Lower.lowerStmts]
  have kept : Lowers layout (Lower.keepIf rest.isEmpty) pending pending set (fun _ => 0) [] := by
    unfold Lower.keepIf
    split
    · exact nil
    · exact emit _
  exact (isValue.bind (kept.bind areRest)).node nofun (by simp) (by simp) (by simp [Part.cost])

end Stmts

-- The induction is on the tree, where the parts of a form are known if the form is.
mutual

theorem lowerExpr_lowers : ∀ (e : Expr .typed) {set : List SymbolId} (pending : List Label),
    HasType resolved.globals owner set e → (∀ part ∈ e.parts, part.Known resolved owner) →
    ExprLowers layout resolved.symbols set pending e
  | .number .., _, _, _, _ => by
    rw [ExprLowers, Lower.lowerExpr, Expr.parts]
    exact (emit _).node nofun (by simp) (by simp) fun _ => rfl
  | .string .., _, _, _, _ => by
    rw [ExprLowers, Lower.lowerExpr, Expr.parts]
    exact (emit _).node nofun (by simp) (by simp) fun _ => rfl
  | .bool .., _, _, _, _ => by
    rw [ExprLowers, Lower.lowerExpr, Expr.parts]
    exact (emit _).node nofun (by simp) (by simp) fun _ => rfl
  | .named name sym span ty, set, pending, typed, known => by
    rw [ExprLowers, Lower.lowerExpr, Expr.parts]
    have bound := (known _ (Expr.mem_parts _)).bound sym (by simp [Part.symbols, Part.refers])
    cases typed with
    | named readable =>
      exact (load_lowers readable bound).node nofun (by simp) (by simp) fun _ => rfl
  | .binary op lhs rhs span ty, set, pending, typed, known => by
    rw [Expr.parts, List.forall_mem_cons, List.forall_mem_append] at known
    have ofValues := (known.2.1 _ lhs.mem_parts).decorated.2
    cases typed with
    | binary left right _ =>
      exact binary_lowers ofValues (lowerExpr_lowers lhs pending left known.2.1)
        (lowerExpr_lowers rhs pending right known.2.2)
  | .range first limit none span ty, set, pending, typed, known => by
    rw [Expr.parts, List.forall_mem_cons, List.forall_mem_append] at known
    cases typed with
    | range isFirst _ isLimit _ =>
      exact range_lowers (lowerExpr_lowers first pending isFirst known.2.1)
        (lowerExpr_lowers limit pending isLimit known.2.2)
  | .range first limit (some step) span ty, set, pending, typed, known => by
    rw [Expr.parts, List.forall_mem_cons, List.forall_mem_append, List.forall_mem_append] at known
    cases typed with
    | rangeBy isFirst _ isLimit _ isStep _ =>
      exact rangeBy_lowers (lowerExpr_lowers first pending isFirst known.2.1.1)
        (lowerExpr_lowers limit pending isLimit known.2.1.2)
        (lowerExpr_lowers step pending isStep known.2.2)
  | .call name args sym span ty, set, pending, typed, known => by
    rw [Expr.parts, List.forall_mem_cons] at known
    have bound := known.1.bound sym (by simp [Part.symbols, Part.refers])
    cases typed with
    | call _ _ areTyped _ =>
      exact call_lowers bound (lowerExprs_lowers args pending areTyped known.2)
  | .construct name args sym span ty, set, pending, typed, known => by
    rw [Expr.parts, List.forall_mem_cons] at known
    have bound := known.1.bound sym (by simp [Part.symbols, Part.refers])
    cases typed with
    | construct _ areTyped _ =>
      exact construct_lowers bound (lowerExprs_lowers args pending areTyped known.2)
  | .member base field sym span ty, set, pending, typed, known => by
    rw [Expr.parts, List.forall_mem_cons] at known
    have bound := known.1.bound sym (by simp [Part.symbols, Part.refers])
    cases typed with
    | @member _ _ _ _ _ record _ _ index isBase baseType _ _ kind =>
      have recordBound := (known.2 _ base.mem_parts).bound record
        (by simp [Part.symbols, Part.records, baseType, Ty.records])
      exact member_lowers bound recordBound baseType kind
        (lowerExpr_lowers base pending isBase known.2)
  | .ifElse cond yes no span ty, set, pending, typed, known => by
    rw [Expr.parts, List.forall_mem_cons, List.forall_mem_append, List.forall_mem_append] at known
    cases typed with
    | ifElse isCond _ isYes isNo =>
      exact ifElse_lowers (fun _ => lowerExpr_lowers cond _ isCond known.2.1.1)
        (fun _ => lowerBlock_lowers yes _ isYes known.2.1.2)
        (fun _ => lowerBlock_lowers no _ isNo known.2.2)
  | .ifOnly .., _, _, typed, _ => nomatch typed
  | .foreach .., _, _, typed, _ => nomatch typed
  | .block body ty, set, pending, typed, known => by
    rw [Expr.parts, List.forall_mem_cons] at known
    rw [ExprLowers, Expr.parts, Lower.lowerExpr]
    cases typed with
    | block isBody =>
      exact (lowerBlock_lowers body pending isBody known.2).node nofun (by simp) (by simp)
        (by simp [Part.cost])
termination_by e => sizeOf e

theorem lowerExprs_lowers : ∀ (es : List (Expr .typed)) {set : List SymbolId}
    (pending : List Label), HaveTypes resolved.globals owner set es →
    (∀ part ∈ Expr.allParts es, part.Known resolved owner) →
    ExprsLower layout resolved.symbols set pending es
  | [], _, _, _, _ => by
    rw [ExprsLower, Lower.lowerExprs, Expr.allParts]
    exact nil
  | first :: rest, set, pending, typed, known => by
    rw [Expr.allParts, List.forall_mem_append] at known
    rw [ExprsLower, Lower.lowerExprs, Expr.allParts]
    cases typed with
    | cons isFirst areRest =>
      have both := (lowerExpr_lowers first pending isFirst known.1).bind
        (lowerExprs_lowers rest pending areRest known.2)
      exact both.of_eq rfl (by simp)
termination_by es => sizeOf es

theorem lowerChain_lowers (slot : Nat) : ∀ (bodies : List (Expr .typed)) {set : List SymbolId}
    {ty : Ty} (pending : List Label), ChainHasType resolved.globals owner set ty bodies →
    (∀ part ∈ Expr.allParts bodies, part.Known resolved owner) →
    ChainLowers layout resolved.symbols set pending slot bodies
  | [], _, _, _, _, _ => by
    rw [ChainLowers, Lower.lowerChain, Expr.allParts]
    exact nil
  | body :: rest, set, ty, pending, typed, known => by
    rw [Expr.allParts, List.forall_mem_append] at known
    cases typed with
    | @plain _ _ _ _ isBody _ areRest =>
      rw [ChainLowers, lowerChain_cons layout resolved.symbols slot isBody.isSelfAssigning,
        Expr.allParts]
      have assigned := (lowerExpr_lowers body pending isBody known.1).bind
        ((emit (.storeLocal slot)).bind (lowerChain_lowers slot rest pending areRest known.2))
      exact assigned.of_eq (by simp) (by simp)
    | @ifOnly _ _ cond yes span _ isCond _ isYes areRest =>
      rw [Expr.parts, List.forall_mem_cons, List.forall_mem_append] at known
      exact chainIf_lowers (fun _ => lowerExpr_lowers cond _ isCond known.1.2.1)
        (fun _ => lowerBlock_lowers yes _ isYes known.1.2.2)
        (lowerChain_lowers slot rest pending areRest known.2)
    | @«foreach» _ _ element elementType source body sym span _ isSource _ _ isBody areRest =>
      rw [Expr.parts, List.forall_mem_cons, List.forall_mem_append] at known
      exact chainForeach_lowers (fun _ => lowerExpr_lowers source _ isSource known.1.2.1)
        (fun _ => lowerBlock_lowers body _ isBody known.1.2.2)
        (lowerChain_lowers slot rest pending areRest known.2)
termination_by bodies => sizeOf bodies

theorem lowerBlock_lowers : ∀ (body : Block .typed) {set : List SymbolId} {ty : Ty}
    (pending : List Label), BlockHasType resolved.globals owner set body ty →
    (∀ part ∈ body.parts, part.Known resolved owner) →
    BlockLowers layout resolved.symbols set pending body
  | ⟨stmts, span, ty⟩, set, _, pending, typed, known => by
    rw [Block.parts, List.forall_mem_cons] at known
    rw [BlockLowers, Block.parts, Lower.lowerBlock]
    cases typed with
    | mk areTyped _ =>
      exact (lowerStmts_lowers stmts pending areTyped known.2).node nofun (by simp) (by simp)
        (by simp [Part.cost])
termination_by body => sizeOf body

theorem lowerStmts_lowers : ∀ (stmts : List (Stmt .typed)) {set : List SymbolId}
    (pending : List Label), StmtsTyped resolved.globals owner set stmts →
    (∀ part ∈ Stmt.allParts stmts, part.Known resolved owner) →
    StmtsLower layout resolved.symbols set pending stmts
  | [], _, _, _, _ => by
    rw [StmtsLower, Lower.lowerStmts, Stmt.allParts]
    exact nil
  | .letIn name type first chained span sym :: rest, set, pending, typed, known => by
    rw [Stmt.allParts, Stmt.parts, List.forall_mem_append, List.forall_mem_cons,
      List.forall_mem_append] at known
    cases typed with
    | letIn isFirst _ _ areChained areRest =>
      exact let_lowers (lowerExpr_lowers first pending isFirst known.1.2.1)
        (fun slot => lowerChain_lowers slot chained pending areChained known.1.2.2)
        (lowerStmts_lowers rest pending areRest known.2)
  | .func .. :: rest, set, pending, typed, known => by
    rw [Stmt.allParts, List.forall_mem_append] at known
    rw [StmtsLower, Stmt.allParts, Stmt.parts, Lower.lowerStmts]
    cases typed with
    | func areRest =>
      exact (lowerStmts_lowers rest pending areRest known.2).node nofun (by simp) (by simp)
        (by simp [Part.cost])
  | .record .. :: rest, set, pending, typed, known => by
    rw [Stmt.allParts, List.forall_mem_append] at known
    rw [StmtsLower, Stmt.allParts, Stmt.parts, Lower.lowerStmts]
    cases typed with
    | record areRest =>
      exact (lowerStmts_lowers rest pending areRest known.2).node nofun (by simp) (by simp)
        (by simp [Part.cost])
  | .expr value :: rest, set, pending, typed, known => by
    rw [Stmt.allParts, Stmt.parts, List.forall_mem_append, List.forall_mem_cons] at known
    cases typed with
    | expr isValue areRest =>
      exact exprStmt_lowers (lowerExpr_lowers value pending isValue known.1.2)
        (lowerStmts_lowers rest pending areRest known.2)
termination_by stmts => sizeOf stmts

end

end Trees

theorem Draft.targets_total : ∀ {labels : List (Option Nat)} (index : Nat) (done : Array Nat),
    none ∉ labels → ∃ targets, Draft.targets index done labels = .ok targets
  | [], _, done, _ => ⟨done, rfl⟩
  | some target :: _, index, done, marked =>
    Draft.targets_total (index + 1) (done.push target) fun member =>
      marked (List.mem_cons_of_mem _ member)
  | none :: _, _, _, marked => absurd List.mem_cons_self marked

theorem Draft.finish_total {s : Lowering} (closed : s.Open []) :
    ∃ routine, s.draft.finish = .ok routine := by
  have marked : none ∉ s.draft.labels.toList := by
    intro member
    obtain ⟨label, found⟩ := List.getElem?_of_mem member
    exact absurd (closed.unmarked label (by simpa using found)) List.not_mem_nil
  obtain ⟨targets, done⟩ := Draft.targets_total 0 #[] marked
  rw [Draft.finish, done]
  exact ⟨_, rfl⟩

theorem LaidFunction.lower_outcome {resolved : Resolved} {layout : Layout} {owner : SymbolId}
    {function : LaidFunction} {ty : Ty}
    (typed : Typing.BlockHasType resolved.globals owner [] function.body ty)
    (known : ∀ part ∈ function.body.parts, part.Known resolved owner) :
    (∃ routine, function.lower layout resolved.symbols = .ok routine ∧
      ∀ part ∈ function.body.parts, ¬part.ComparesSequences) ∨
    ∃ halt, function.lower layout resolved.symbols = .error halt ∧
      (Draft.maxSlots < function.params ∧ halt = .error (.tooMany "parameters") ∨
        Stops layout (.start function.name function.params) (Part.costs function.body.parts)
          function.body.parts halt) := by
  rw [LaidFunction.lower]
  by_cases many : function.params > 65535
  · rw [if_pos many]
    exact Or.inr ⟨_, rfl, Or.inl ⟨many, rfl⟩⟩
  · rw [if_neg many]
    have lowers : Lowers layout _ [] [] [] _ _ :=
      (lowerBlock_lowers function.body [] typed known).bind (Lowers.emit .ret)
    have begun : Lowering.Open [] ⟨.start function.name function.params, ∅⟩ :=
      ⟨List.forall_mem_nil _, by simp [Draft.start]⟩
    rcases lowers _ begun (List.forall_mem_nil _) with ⟨s, ran, closed, -, -, plain⟩ | ⟨halt, failed, stops⟩
    · obtain ⟨routine, finished⟩ := Draft.finish_total closed
      refine Or.inl ⟨routine, ?_, by simpa using plain⟩
      change (_ >>= _ : Except _ _) = _
      rw [StateT.run, ran]
      change s.draft.finish.mapError Halt.fault = _
      rw [finished]
      rfl
    · refine Or.inr ⟨halt, ?_, Or.inr (stops.widen (by simp) (by simp))⟩
      change (_ >>= _ : Except _ _) = _
      rw [StateT.run, failed]
      rfl

end LetChain
