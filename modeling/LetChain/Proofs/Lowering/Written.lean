import LetChain.Proofs.Lowering.Placed
import LetChain.Proofs.Stateful
import LetChain.Proofs.Typing.Declarations

/-! Lowering writes the code of a tree: what it leaves in a draft stands in every routine that the
draft becomes. -/

namespace LetChain

/-- What holds while a draft is being written: `seen` are the locals so far, the labels that are
`pending` lead nowhere yet, and all others lead to their marks. -/
structure Lowering.Ready (pending : List Label) (seen : List SymbolId) (s : Lowering) : Prop where
  pending : ∀ label ∈ pending, label < s.draft.labels.size
  locals : s.draft.locals = seen.length
  slots : ∀ (sym : SymbolId) (slot : Nat), s.slots[sym]? = some slot → seen[slot]? = some sym
  marks : ∀ (label : Label) (pc : Nat), s.draft.labels[label]? = some (some pc) →
    s.draft.code[pc]? = some (.mark label)

structure Draft.Becomes (pending : List Label) (draft : Draft) (routine : Routine) : Prop where
  code : ∀ (pc : Nat) (instr : Instr), draft.code[pc]? = some instr → routine.code[pc]? = some instr
  labels : ∀ (label : Label) (pc : Nat), label ∉ pending →
    draft.labels[label]? = some (some pc) → routine.labels[label]? = some pc
  iterators : draft.iterators ≤ routine.iterators

structure Draft.Continues (before after : Draft) : Prop where
  name : after.name = before.name
  params : after.params = before.params
  iterators : before.iterators ≤ after.iterators

abbrev Placement := Site → Nat → Nat → Nat → Prop

/-- An action writes code with the given locals. Of the routine only the labels that are pending
before it, and not those after it, are still to be set. -/
def Writes (layout : Layout) (symbols : Symbols) (act : Lower Unit) (pending pending' : List Label)
    (locals : List SymbolId) (code : Placement) : Prop :=
  ∀ s s' seen, act s = .ok ((), s') → s.Ready pending seen →
    s'.Ready pending' (seen ++ locals) ∧ s.draft.Continues s'.draft ∧
    ∀ routine all low, s'.draft.Becomes pending' routine → seen ++ locals <+: all →
      low ≤ s.draft.iterators →
      s.draft.Becomes pending routine ∧
        code ⟨layout, symbols, routine, all⟩ low s.draft.code.size s'.draft.code.size

namespace Writes

variable {layout : Layout} {symbols : Symbols} {pending pending' pending'' : List Label}
  {locals locals' : List SymbolId} {code code' : Placement}

theorem mono {act : Lower Unit} (writes : Writes layout symbols act pending pending' locals code)
    (same : locals = locals')
    (imp : ∀ routine all low pc pc', code ⟨layout, symbols, routine, all⟩ low pc pc' →
      code' ⟨layout, symbols, routine, all⟩ low pc pc') :
    Writes layout symbols act pending pending' locals' code' := by
  subst same
  intro s s' seen ran ready
  obtain ⟨ready', continues, placed⟩ := writes s s' seen ran ready
  refine ⟨ready', continues, fun routine all low becomes included above => ?_⟩
  obtain ⟨becomes', here⟩ := placed routine all low becomes included above
  exact ⟨becomes', imp _ _ _ _ _ here⟩

theorem nil : Writes layout symbols (pure ()) pending pending [] fun _ _ pc pc' => pc' = pc := by
  intro s s' seen ran ready
  cases ran
  rw [List.append_nil]
  exact ⟨ready, ⟨rfl, rfl, Nat.le_refl _⟩, fun _ _ _ becomes _ _ => ⟨becomes, rfl⟩⟩

theorem bind {act rest : Lower Unit} (writes : Writes layout symbols act pending pending' locals code)
    (writesRest : Writes layout symbols rest pending' pending'' locals' code') :
    Writes layout symbols (act >>= fun _ => rest) pending pending'' (locals ++ locals')
      fun site low pc pc' => ∃ pc₁, code site low pc pc₁ ∧ code' site low pc₁ pc' := by
  intro s s' seen ran ready
  obtain ⟨_, s₁, ranAct, ranRest⟩ := Stateful.bind_eq_ok.mp ran
  obtain ⟨ready₁, continues₁, placed⟩ := writes s s₁ seen ranAct ready
  obtain ⟨ready', continues₂, placed'⟩ := writesRest s₁ s' _ ranRest ready₁
  rw [List.append_assoc] at ready' placed'
  have continues : s.draft.Continues s'.draft :=
    ⟨continues₂.name.trans continues₁.name, continues₂.params.trans continues₁.params,
      Nat.le_trans continues₁.iterators continues₂.iterators⟩
  refine ⟨ready', continues, fun routine all low becomes included above => ?_⟩
  obtain ⟨becomes₁, later⟩ :=
    placed' routine all low becomes included (Nat.le_trans above continues₁.iterators)
  have included₁ : seen ++ locals <+: all := by
    rw [← List.append_assoc] at included
    exact (List.prefix_append _ _).trans included
  obtain ⟨becomes₀, here⟩ := placed routine all low becomes₁ included₁ above
  exact ⟨becomes₀, _, here, later⟩

theorem lift {α : Type} {result : Layout.Lay α} {next : α → Lower Unit}
    (rest : ∀ a, result = .ok a →
      Writes layout symbols (next a) pending pending' locals code) :
    Writes layout symbols (liftM result >>= next) pending pending' locals code := by
  intro s s' seen ran ready
  obtain ⟨a, s₁, got, ran⟩ := Stateful.bind_eq_ok.mp ran
  obtain ⟨found, rfl⟩ := Stateful.lift_eq_ok.mp got
  exact rest a found s s' seen ran ready

theorem emit (instr : Instr) :
    Writes layout symbols (Lower.emit instr) pending pending [] fun site _ pc pc' =>
      site.Has pc instr ∧ pc' = pc + 1 := by
  intro s s' seen ran ready
  cases ran
  rw [List.append_nil]
  have kept {pc : Nat} {other : Instr} (found : s.draft.code[pc]? = some other) :
      (s.draft.emit instr).code[pc]? = some other := by
    have bound := (Array.getElem?_eq_some_iff.mp found).1
    simpa [Draft.emit, Array.getElem?_push, Nat.ne_of_lt bound] using found
  refine ⟨⟨ready.pending, ready.locals, ready.slots, fun label pc leads =>
    kept (ready.marks label pc leads)⟩, ⟨rfl, rfl, Nat.le_refl _⟩, ?_⟩
  intro routine all low becomes _ _
  refine ⟨⟨fun pc other found => ?_, becomes.labels, becomes.iterators⟩, ?_, ?_⟩
  · exact becomes.code pc other (kept found)
  · exact becomes.code _ instr (by simp [Draft.emit])
  · simp [Draft.emit]

theorem newLabel {next : Label → Lower Unit}
    (rest : ∀ label, label ∉ pending →
      Writes layout symbols (next label) (label :: pending) pending' locals code) :
    Writes layout symbols (Lower.newLabel >>= next) pending pending' locals code := by
  rintro ⟨draft, slots⟩ s' seen ran ready
  obtain ⟨label, s₁, got, ran⟩ := Stateful.bind_eq_ok.mp ran
  rw [Lower.newLabel, Draft.newLabel] at got
  split at got
  case h_2 => cases got
  case h_1 made =>
    cases got
    split at made
    case isFalse => cases made
    case isTrue =>
      cases made
      have old (other : Label) (member : other ∈ pending) : other < draft.labels.size :=
        ready.pending other member
      have fresh : draft.labels.size ∉ pending := fun member => Nat.lt_irrefl _ (old _ member)
      have ready₁ : Lowering.Ready (draft.labels.size :: pending) seen
          ⟨{ draft with labels := draft.labels.push none }, slots⟩ := by
        refine ⟨fun other member => ?_, ready.locals, ready.slots, fun other pc leads => ?_⟩
        · rw [Array.size_push]
          rcases List.mem_cons.mp member with rfl | member
          · exact Nat.lt_succ_self _
          · exact Nat.lt_succ_of_lt (old other member)
        · refine ready.marks other pc ?_
          rw [Array.getElem?_push] at leads
          split at leads
          · cases leads
          · exact leads
      obtain ⟨ready', continues, placed⟩ := rest _ fresh _ s' seen ran ready₁
      refine ⟨ready', ⟨continues.name, continues.params, continues.iterators⟩,
        fun routine all low becomes included above => ?_⟩
      obtain ⟨becomes₁, here⟩ := placed routine all low becomes included above
      refine ⟨⟨becomes₁.code, fun other pc absent leads => ?_, becomes₁.iterators⟩, here⟩
      have bound := (Array.getElem?_eq_some_iff.mp leads).1
      refine becomes₁.labels other pc ?_ ?_
      · simp [Nat.ne_of_lt bound, absent]
      · simpa [Array.getElem?_push, Nat.ne_of_lt bound] using leads

theorem mark (before : List Label) {after : List Label} {label : Label}
    (fresh : label ∉ before ++ after) :
    Writes layout symbols (Lower.mark label) (before ++ label :: after) (before ++ after) []
      fun site _ pc pc' => site.Has pc (.mark label) ∧ site.Leads label pc ∧ pc' = pc + 1 := by
  have pending (other : Label) :
      other ∈ before ++ label :: after ↔ other = label ∨ other ∈ before ++ after := by
    simp [or_left_comm]
  rintro ⟨draft, slots⟩ s' seen ran ready
  have bound : label < draft.labels.size := ready.pending label ((pending label).mpr (.inl rfl))
  simp only [Lower.mark, Draft.mark, if_pos bound] at ran
  cases ran
  rw [List.append_nil]
  have kept {pc : Nat} {instr : Instr} (found : draft.code[pc]? = some instr) :
      (draft.code.push (.mark label))[pc]? = some instr := by
    have earlier := (Array.getElem?_eq_some_iff.mp found).1
    simpa [Array.getElem?_push, Nat.ne_of_lt earlier] using found
  refine ⟨⟨fun other member => ?_, ready.locals, ready.slots, fun other pc leads => ?_⟩,
    ⟨rfl, rfl, Nat.le_refl _⟩, ?_⟩
  · rw [Array.size_setIfInBounds]
    exact ready.pending other ((pending other).mpr (.inr member))
  · by_cases same : label = other
    · subst same
      have here : draft.code.size = pc := by simpa [bound] using leads
      subst here
      simp
    · rw [Array.getElem?_setIfInBounds_ne same] at leads
      exact kept (ready.marks other pc leads)
  intro routine all low becomes _ _
  refine ⟨⟨fun pc instr found => ?_, fun other pc absent leads => ?_, becomes.iterators⟩, ?_, ?_, ?_⟩
  · exact becomes.code pc instr (kept found)
  · obtain ⟨different, absent⟩ := not_or.mp (mt (pending other).mpr absent)
    refine becomes.labels other pc absent ?_
    rwa [Array.getElem?_setIfInBounds_ne (Ne.symm different)]
  · exact becomes.code _ _ (by simp)
  · exact becomes.labels _ _ fresh (by simp [bound])
  · simp

theorem newLocal {sym : SymbolId} {next : Nat → Lower Unit} {placed : Nat → Placement}
    (rest : ∀ slot, Writes layout symbols (next slot) pending pending' locals (placed slot)) :
    Writes layout symbols (Lower.newLocal sym >>= next) pending pending' (sym :: locals)
      fun site low pc pc' => ∃ slot, site.Slot sym slot ∧ placed slot site low pc pc' := by
  rintro ⟨draft, slots⟩ s' seen ran ready
  obtain ⟨slot, s₁, got, ran⟩ := Stateful.bind_eq_ok.mp ran
  rw [Lower.newLocal, Draft.newLocal] at got
  split at got
  case h_2 => cases got
  case h_1 made =>
    cases got
    split at made
    case isFalse => cases made
    case isTrue =>
      cases made
      have count : draft.locals = seen.length := ready.locals
      have ready₁ : Lowering.Ready pending (seen ++ [sym])
          ⟨{ draft with locals := draft.locals + 1 }, slots.insert sym draft.locals⟩ := by
        refine ⟨ready.pending, by simp [count], fun other slot found => ?_, ready.marks⟩
        rw [Std.HashMap.getElem?_insert] at found
        split at found
        case isTrue same =>
          cases found
          simpa [count] using (eq_of_beq same)
        case isFalse =>
          have before := ready.slots other slot found
          have bound := (List.getElem?_eq_some_iff.mp before).1
          rwa [List.getElem?_append_left bound]
      obtain ⟨ready', continues, placed⟩ := rest _ _ s' _ ran ready₁
      rw [List.append_assoc, List.singleton_append] at ready' placed
      refine ⟨ready', ⟨continues.name, continues.params, continues.iterators⟩,
        fun routine all low becomes included above => ?_⟩
      obtain ⟨becomes₁, here⟩ := placed routine all low becomes included above
      refine ⟨⟨becomes₁.code, becomes₁.labels, becomes₁.iterators⟩, draft.locals, ?_, here⟩
      obtain ⟨later, rfl⟩ := included
      simp [Site.Slot, count]

theorem newIterator {next : Nat → Lower Unit} {placed : Nat → Placement}
    (rest : ∀ iterator,
      Writes layout symbols (next iterator) pending pending' locals (placed iterator)) :
    Writes layout symbols (Lower.newIterator >>= next) pending pending' locals
      fun site low pc pc' => ∃ iterator, low ≤ iterator ∧ iterator < site.routine.iterators ∧
        placed iterator site (iterator + 1) pc pc' := by
  rintro ⟨draft, slots⟩ s' seen ran ready
  obtain ⟨iterator, s₁, got, ran⟩ := Stateful.bind_eq_ok.mp ran
  rw [Lower.newIterator, Draft.newIterator] at got
  split at got
  case h_2 => cases got
  case h_1 made =>
    cases got
    split at made
    case isFalse => cases made
    case isTrue =>
      cases made
      have ready₁ : Lowering.Ready pending seen
          ⟨{ draft with iterators := draft.iterators + 1 }, slots⟩ :=
        ⟨ready.pending, ready.locals, ready.slots, ready.marks⟩
      obtain ⟨ready', continues, placed⟩ := rest _ _ s' _ ran ready₁
      refine ⟨ready', ⟨continues.name, continues.params, Nat.le_of_succ_le continues.iterators⟩,
        fun routine all low becomes included above => ?_⟩
      obtain ⟨becomes₁, here⟩ :=
        placed routine all (draft.iterators + 1) becomes included (Nat.le_refl _)
      refine ⟨⟨becomes₁.code, becomes₁.labels, ?_⟩, _, above, becomes₁.iterators, here⟩
      exact Nat.le_of_succ_le becomes₁.iterators

theorem box (op : Operator) (ty : Ty) :
    Writes layout symbols (Lower.boxOperand op ty) pending pending [] fun site _ pc pc' =>
      site.BoxCode op ty pc pc' := by
  by_cases boxed : op = .concat ∧ ty = .number
  · simp only [Lower.boxOperand, Site.BoxCode, if_pos boxed]
    exact emit _
  · simp only [Lower.boxOperand, Site.BoxCode, if_neg boxed]
    exact nil

theorem symbol_eq_ok {sym : SymbolId} {found : Symbol}
    (looked : Layout.symbol symbols sym = .ok found) : symbols.get sym = found := by
  rw [Layout.symbol] at looked
  split at looked
  case h_1 present =>
    cases looked
    simp [Symbols.get, Array.getD_eq_getD_getElem?, present]
  case h_2 => cases looked

theorem unresolved_ne_ok {α : Type} {sym : SymbolId} {a : α} :
    (Layout.unresolved symbols sym : Layout.Lay α) ≠ .ok a := by
  rw [Layout.unresolved]
  cases Layout.symbol symbols sym <;> nofun

theorem load {name : Ident} {sym : SymbolId} {span : Span} {ty : Ty} :
    Writes layout symbols (Lower.load symbols sym) pending pending [] fun site low pc pc' =>
      site.ExprCode low (.named name sym span ty) pc pc' := by
  refine lift fun found looked => ?_
  have same := symbol_eq_ok looked
  subst same
  cases kind : (symbols.get sym).kind with
  | param index =>
    exact (emit _).mono rfl fun _ _ _ _ _ ⟨has, next⟩ => next ▸ .param kind has
  | _ =>
    intro s s' seen ran ready
    obtain ⟨_, _, got, ran⟩ := Stateful.bind_eq_ok.mp ran
    cases got
    cases present : s.slots[sym]? with
    | none =>
      simp only [present] at ran
      exact absurd (Stateful.lift_eq_ok.mp ran).1 unresolved_ne_ok
    | some slot =>
      simp only [present] at ran
      obtain ⟨ready', continues, placed⟩ := emit _ s s' seen ran ready
      refine ⟨ready', continues, fun routine all low becomes included above => ?_⟩
      obtain ⟨becomes₁, has, next⟩ := placed routine all low becomes included above
      refine ⟨becomes₁, next ▸ .localVar (fun index => ?_) ?_ has⟩
      · rw [kind]
        exact nofun
      · obtain ⟨later, rfl⟩ := included
        have before := ready.slots sym slot present
        have bound := (List.getElem?_eq_some_iff.mp before).1
        simpa [Site.Slot, List.getElem?_append_left bound] using before

theorem functionId_eq_ok {sym : SymbolId} {index : Nat}
    (looked : layout.functionId symbols sym = .ok index) :
    layout.functionIds[sym]? = some index := by
  rw [Layout.functionId] at looked
  split at looked
  case h_1 present => exact present.trans (congrArg some (Except.ok.inj looked))
  case h_2 => exact absurd looked unresolved_ne_ok

theorem recordId_eq_ok {sym : SymbolId} {index : Nat}
    (looked : layout.recordId symbols sym = .ok index) :
    layout.recordIds[sym]? = some index := by
  rw [Layout.recordId] at looked
  split at looked
  case h_1 present => exact present.trans (congrArg some (Except.ok.inj looked))
  case h_2 => exact absurd looked unresolved_ne_ok

theorem call (sym : SymbolId) :
    Writes layout symbols (do Lower.emit (.call (← layout.functionId symbols sym))) pending pending
      [] fun site _ pc pc' => ∃ index, site.layout.functionIds[sym]? = some index ∧
        site.Has pc (.call index) ∧ pc' = pc + 1 :=
  lift fun index looked =>
    (emit _).mono rfl fun _ _ _ _ _ here => ⟨index, functionId_eq_ok looked, here⟩

theorem construct (sym : SymbolId) :
    Writes layout symbols (do Lower.emit (.construct (← layout.recordId symbols sym))) pending
      pending [] fun site _ pc pc' => ∃ index, site.layout.recordIds[sym]? = some index ∧
        site.Has pc (.construct index) ∧ pc' = pc + 1 :=
  lift fun index looked =>
    (emit _).mono rfl fun _ _ _ _ _ here => ⟨index, recordId_eq_ok looked, here⟩

theorem loadField (sym : SymbolId) :
    Writes layout symbols (Lower.loadField layout symbols sym) pending pending []
      fun site _ pc pc' => ∃ record id index, (site.symbols.get sym).kind = .field record index ∧
        site.layout.recordIds[record]? = some id ∧ site.Has pc (.loadField id index) ∧
          pc' = pc + 1 := by
  refine lift fun found looked => ?_
  have same := symbol_eq_ok looked
  subst same
  cases kind : (symbols.get sym).kind with
  | field record index =>
    refine lift fun id looked => ?_
    exact (emit _).mono rfl fun _ _ _ _ _ ⟨has, next⟩ =>
      ⟨record, id, index, kind, recordId_eq_ok looked, has, next⟩
  | _ =>
    intro s s' seen ran ready
    exact absurd (Stateful.lift_eq_ok.mp ran).1 unresolved_ne_ok

end Writes

/-! ### Trees -/

section Trees

open Writes

variable (layout : Layout) (symbols : Symbols)

theorem lowerChain_cons (slot : Nat) {body : Expr .typed} {rest : List (Expr .typed)}
    (plain : body.isSelfAssigning = false) :
    Lower.lowerChain layout symbols slot (body :: rest) = (do
      Lower.lowerExpr layout symbols body
      Lower.emit (.storeLocal slot)
      Lower.lowerChain layout symbols slot rest) := by
  rw [Lower.lowerChain]
  · rintro _ _ _ _ rfl
    cases plain
  · rintro _ _ _ _ _ _ _ rfl
    cases plain

mutual

theorem lowerExpr_writes : ∀ (e : Expr .typed) (pending : List Label),
    Writes layout symbols (Lower.lowerExpr layout symbols e) pending pending e.locals
      fun site low pc pc' => site.ExprCode low e pc pc'
  | .number .., _ => by
    rw [Lower.lowerExpr, Expr.locals]
    exact (emit _).mono rfl fun _ _ _ _ _ ⟨has, next⟩ => next ▸ .number has
  | .string .., _ => by
    rw [Lower.lowerExpr, Expr.locals]
    exact (emit _).mono rfl fun _ _ _ _ _ ⟨has, next⟩ => next ▸ .string has
  | .bool .., _ => by
    rw [Lower.lowerExpr, Expr.locals]
    exact (emit _).mono rfl fun _ _ _ _ _ ⟨has, next⟩ => next ▸ .bool has
  | .named .., _ => by
    rw [Lower.lowerExpr, Expr.locals]
    exact Writes.load
  | .binary op lhs rhs _ _, pending => by
    rw [Lower.lowerExpr, Expr.locals]
    refine lift fun instr chosen => ?_
    have operands := (lowerExpr_writes lhs pending).bind
      ((box op lhs.ty).bind ((lowerExpr_writes rhs pending).bind
        ((box op rhs.ty).bind (emit (.binary instr)))))
    refine operands.mono (by simp) ?_
    rintro _ _ _ _ _ ⟨_, lhsCode, _, lhsBox, _, rhsCode, _, rhsBox, has, rfl⟩
    exact .binary (Stateful.mapError_eq_ok.mp chosen) lhsCode lhsBox rhsCode rhsBox has
  | .range first limit none _ _, pending => by
    rw [Lower.lowerExpr, Expr.locals, Lower.lowerStep]
    have bounds := (lowerExpr_writes first pending).bind
      ((lowerExpr_writes limit pending).bind ((emit (.pushNumber 1)).bind (emit .generateList)))
    refine bounds.mono (by simp) ?_
    rintro _ _ _ _ _ ⟨_, firstCode, _, limitCode, _, ⟨pushes, rfl⟩, has, rfl⟩
    exact .range firstCode limitCode pushes has
  | .range first limit (some step) _ _, pending => by
    rw [Lower.lowerExpr, Expr.locals, Lower.lowerStep]
    have bounds := (lowerExpr_writes first pending).bind
      ((lowerExpr_writes limit pending).bind
        ((lowerExpr_writes step pending).bind (emit .generateList)))
    refine bounds.mono (by simp) ?_
    rintro _ _ _ _ _ ⟨_, firstCode, _, limitCode, _, stepCode, has, rfl⟩
    exact .rangeBy firstCode limitCode stepCode has
  | .call _ args sym _ _, pending => by
    rw [Lower.lowerExpr, Expr.locals]
    refine ((lowerExprs_writes args pending).bind (call sym)).mono (by simp) ?_
    rintro _ _ _ _ _ ⟨_, argsCode, _, found, has, rfl⟩
    exact .call argsCode found has
  | .construct _ args sym _ _, pending => by
    rw [Lower.lowerExpr, Expr.locals]
    refine ((lowerExprs_writes args pending).bind (construct sym)).mono (by simp) ?_
    rintro _ _ _ _ _ ⟨_, argsCode, _, found, has, rfl⟩
    exact .construct argsCode found has
  | .member base _ sym _ _, pending => by
    rw [Lower.lowerExpr, Expr.locals]
    refine ((lowerExpr_writes base pending).bind (loadField sym)).mono (by simp) ?_
    rintro _ _ _ _ _ ⟨_, baseCode, _, _, _, kind, found, has, rfl⟩
    exact .member baseCode kind found has
  | .ifElse cond yes no _ _, pending => by
    rw [Lower.lowerExpr, Expr.locals]
    refine newLabel fun otherwise otherwiseFresh => newLabel fun done doneFresh => ?_
    have different : otherwise ≠ done := fun same => doneFresh (List.mem_cons.mpr (.inl same.symm))
    have otherwiseFresh' : otherwise ∉ [done] ++ pending := by
      simp [different, otherwiseFresh]
    have doneFresh' : done ∉ pending := fun member => doneFresh (.tail _ member)
    have branches := (lowerExpr_writes cond (done :: otherwise :: pending)).bind
      ((emit (.branchIfFalse otherwise)).bind ((lowerBlock_writes yes _).bind
        ((emit (.branch done)).bind ((mark [done] otherwiseFresh').bind
          ((lowerBlock_writes no _).bind (mark [] doneFresh'))))))
    refine branches.mono (by simp) ?_
    rintro _ _ _ _ _ ⟨_, condCode, _, ⟨branch, rfl⟩, _, yesCode, _, ⟨skip, rfl⟩, _,
      ⟨otherwiseMark, otherwiseLeads, rfl⟩, _, noCode, doneMark, doneLeads, rfl⟩
    exact .ifElse condCode branch yesCode skip otherwiseMark otherwiseLeads noCode doneMark
      doneLeads
  | .ifOnly .., _ => fun _ _ _ ran _ => nomatch ran
  | .foreach .., _ => fun _ _ _ ran _ => nomatch ran
  | .block body _, pending => by
    rw [Lower.lowerExpr, Expr.locals]
    exact (lowerBlock_writes body pending).mono rfl fun _ _ _ _ _ here => .block here

theorem lowerExprs_writes : ∀ (es : List (Expr .typed)) (pending : List Label),
    Writes layout symbols (Lower.lowerExprs layout symbols es) pending pending (Expr.allLocals es)
      fun site low pc pc' => site.ExprsCode low es pc pc'
  | [], _ => by
    rw [Lower.lowerExprs, Expr.allLocals]
    exact Writes.nil.mono rfl fun _ _ _ _ _ (same : _ = _) => same ▸ .nil
  | first :: rest, pending => by
    rw [Lower.lowerExprs, Expr.allLocals]
    refine ((lowerExpr_writes first pending).bind (lowerExprs_writes rest pending)).mono rfl ?_
    rintro _ _ _ _ _ ⟨_, firstCode, restCode⟩
    exact .cons firstCode restCode

theorem lowerChain_writes (slot : Nat) : ∀ (bodies : List (Expr .typed)) (pending : List Label),
    Writes layout symbols (Lower.lowerChain layout symbols slot bodies) pending pending
      (Expr.allLocals bodies) fun site low pc pc' => site.ChainCode low slot bodies pc pc'
  | [], _ => by
    rw [Lower.lowerChain, Expr.allLocals]
    exact Writes.nil.mono rfl fun _ _ _ _ _ (same : _ = _) => same ▸ .nil
  | body :: rest, pending => by
    have plain (isPlain : body.isSelfAssigning = false) :
        Writes layout symbols (Lower.lowerChain layout symbols slot (body :: rest)) pending
          pending (Expr.allLocals (body :: rest))
          fun site low pc pc' => site.ChainCode low slot (body :: rest) pc pc' := by
      rw [lowerChain_cons layout symbols slot isPlain, Expr.allLocals]
      have assigned := (lowerExpr_writes body pending).bind
        ((emit (.storeLocal slot)).bind (lowerChain_writes slot rest pending))
      refine assigned.mono (by simp) ?_
      rintro _ _ _ _ _ ⟨_, bodyCode, _, ⟨store, rfl⟩, restCode⟩
      exact .plain bodyCode store restCode
    cases body with
    | ifOnly cond yes span ty =>
      rw [Lower.lowerChain, Expr.allLocals, Expr.locals]
      refine newLabel fun done doneFresh => ?_
      have assigned := (lowerExpr_writes cond (done :: pending)).bind
        ((emit (.branchIfFalse done)).bind ((lowerBlock_writes yes _).bind
          ((emit (.storeLocal slot)).bind ((mark [] doneFresh).bind
            (lowerChain_writes slot rest pending)))))
      refine assigned.mono (by simp) ?_
      rintro _ _ _ _ _ ⟨_, condCode, _, ⟨branch, rfl⟩, _, yesCode, _, ⟨store, rfl⟩, _,
        ⟨doneMark, doneLeads, rfl⟩, restCode⟩
      exact .ifOnly condCode branch yesCode store doneMark doneLeads restCode
    | foreach name type source body sym span ty =>
      rw [Lower.lowerChain, Expr.allLocals, Expr.locals]
      -- what is above the new iterator makes a loop above all that are not above it
      refine Writes.mono (newIterator fun iterator => newLocal fun element =>
        (?loop : Writes layout symbols _ pending pending
          (source.locals ++ body.locals ++ Expr.allLocals rest) fun site above pc pc' =>
            above = iterator + 1 → ∀ low, low ≤ iterator →
              iterator < site.routine.iterators → site.Slot sym element →
              site.ChainCode low slot (.foreach name type source body sym span ty :: rest)
                pc pc')) (by simp) ?_
      case foreach =>
        rintro _ _ _ _ _ ⟨_, above, within, _, hasSlot, here⟩
        exact here rfl _ above within hasSlot
      refine newLabel fun top topFresh => newLabel fun exit exitFresh => ?_
      have different : top ≠ exit :=
        fun same => exitFresh (List.mem_cons.mpr (.inl same.symm))
      have topFresh' : top ∉ [exit] ++ pending := by
        simp [different, topFresh]
      have exitFresh' : exit ∉ pending := fun member => exitFresh (.tail _ member)
      have steps := (lowerExpr_writes source (exit :: top :: pending)).bind
        ((emit (.acquire iterator)).bind ((mark [exit] topFresh').bind
          ((emit (.advance iterator exit)).bind ((emit (.storeLocal element)).bind
            ((lowerBlock_writes body _).bind ((emit (.storeLocal slot)).bind
              ((emit (.branch top)).bind ((mark [] exitFresh').bind
                ((emit (.release iterator)).bind
                  (lowerChain_writes slot rest pending))))))))))
      refine steps.mono (by simp) ?_
      rintro _ _ _ _ _ ⟨_, sourceCode, _, ⟨acquire, rfl⟩, _, ⟨topMark, topLeads, rfl⟩, _,
        ⟨advance, rfl⟩, _, ⟨storeElement, rfl⟩, _, bodyCode, _, ⟨store, rfl⟩, _,
        ⟨back, rfl⟩, _, ⟨exitMark, exitLeads, rfl⟩, _, ⟨release, rfl⟩, restCode⟩ rfl
      intro low above within hasSlot
      exact .foreach above within hasSlot sourceCode acquire topMark topLeads advance
        storeElement bodyCode store back exitMark exitLeads release restCode
    | _ => exact plain rfl

theorem lowerBlock_writes : ∀ (body : Block .typed) (pending : List Label),
    Writes layout symbols (Lower.lowerBlock layout symbols body) pending pending body.locals
      fun site low pc pc' => site.BlockCode low body pc pc'
  | ⟨stmts, _, _⟩, pending => by
    rw [Lower.lowerBlock, Block.locals]
    exact (lowerStmts_writes stmts pending).mono rfl fun _ _ _ _ _ here => .mk here

theorem lowerStmts_writes : ∀ (stmts : List (Stmt .typed)) (pending : List Label),
    Writes layout symbols (Lower.lowerStmts layout symbols stmts) pending pending
      (Stmt.allLocals stmts) fun site low pc pc' => site.StmtsCode low stmts pc pc'
  | [], _ => by
    rw [Lower.lowerStmts, Stmt.allLocals]
    exact Writes.nil.mono rfl fun _ _ _ _ _ (same : _ = _) => same ▸ .nil
  | .letIn _ _ first chained _ sym :: rest, pending => by
    rw [Lower.lowerStmts, Stmt.allLocals, Stmt.locals]
    have bodies (slot : Nat) := (lowerExpr_writes first pending).bind
      ((emit (.storeLocal slot)).bind ((lowerChain_writes slot chained pending).bind
        (lowerStmts_writes rest pending)))
    refine (newLocal bodies).mono (by simp) ?_
    rintro _ _ _ _ _ ⟨_, hasSlot, _, firstCode, _, ⟨store, rfl⟩, _, chainCode, restCode⟩
    exact .letIn hasSlot firstCode store chainCode restCode
  | .func .. :: rest, pending => by
    rw [Lower.lowerStmts, Stmt.allLocals, Stmt.locals]
    exact (lowerStmts_writes rest pending).mono (by simp) fun _ _ _ _ _ here => .func here
  | .record .. :: rest, pending => by
    rw [Lower.lowerStmts, Stmt.allLocals, Stmt.locals]
    exact (lowerStmts_writes rest pending).mono (by simp) fun _ _ _ _ _ here => .record here
  | .expr value :: rest, pending => by
    rw [Lower.lowerStmts, Stmt.allLocals, Stmt.locals]
    cases rest with
    | nil =>
      refine (lowerExpr_writes value pending).bind (nil.bind nil) |>.mono
        (by simp [Stmt.allLocals]) ?_
      rintro _ _ _ _ _ ⟨_, valueCode, _, rfl, rfl⟩
      exact .last valueCode
    | cons next rest =>
      have statements := (lowerExpr_writes value pending).bind
        ((emit .pop).bind (lowerStmts_writes (next :: rest) pending))
      refine statements.mono (by simp) ?_
      rintro _ _ _ _ _ ⟨_, valueCode, _, ⟨pop, rfl⟩, restCode⟩
      exact .drop (List.cons_ne_nil _ _) valueCode pop restCode

end

end Trees

theorem Draft.targets_eq_ok {index : Nat} {done : Array Nat} {labels : List (Option Nat)}
    {targets : Array Nat} (ran : Draft.targets index done labels = .ok targets) :
    targets.toList.map some = done.toList.map some ++ labels := by
  induction labels generalizing index done with
  | nil =>
    cases ran
    simp
  | cons first rest ih =>
    cases first with
    | none => cases ran
    | some target =>
      rw [Draft.targets] at ran
      simp [ih ran]

theorem Draft.finish_becomes {draft : Draft} {routine : Routine} (ran : draft.finish = .ok routine) :
    draft.Becomes [] routine ∧ routine.name = draft.name ∧ routine.params = draft.params ∧
      routine.locals = draft.locals ∧ routine.code = draft.code ∧ ∀ (label : Label) (pc : Nat), routine.labels[label]? = some pc →
        draft.labels[label]? = some (some pc) := by
  obtain ⟨targets, found, ran⟩ := Stateful.except_bind_eq_ok.mp ran
  cases ran
  have same : targets.toList.map some = draft.labels.toList := by
    simpa using Draft.targets_eq_ok found
  have labels (label : Label) (pc : Nat) :
      draft.labels[label]? = some (some pc) ↔ targets[label]? = some pc := by
    rw [← Array.getElem?_toList, ← same, List.getElem?_map]
    simp
  exact ⟨⟨fun _ _ found => found, fun label pc _ leads => (labels label pc).mp leads,
    Nat.le_refl _⟩, rfl, rfl, rfl, rfl, fun label pc leads => (labels label pc).mpr leads⟩

theorem LaidFunction.lower_placed {layout : Layout} {symbols : Symbols} {function : LaidFunction}
    {routine : Routine} (ran : function.lower layout symbols = .ok routine) :
    routine.name = function.name ∧ routine.params = function.params ∧
      routine.locals = function.body.locals.length ∧
      ∃ stop, Site.BlockCode ⟨layout, symbols, routine, function.body.locals⟩ 0 function.body 0 stop ∧
        Site.Has ⟨layout, symbols, routine, function.body.locals⟩ stop .ret ∧
        routine.code.size = stop + 1 ∧ ∀ (label : Label) (pc : Nat),
          routine.labels[label]? = some pc → routine.code[pc]? = some (.mark label) := by
  rw [LaidFunction.lower] at ran
  split at ran
  case isTrue => cases ran
  case isFalse =>
    obtain ⟨⟨_, s⟩, wrote, ran⟩ := Stateful.except_bind_eq_ok.mp ran
    have finished : s.draft.finish = .ok routine := Stateful.mapError_eq_ok.mp ran
    have start : Lowering.Ready [] [] ⟨.start function.name function.params, ∅⟩ :=
      ⟨nofun, rfl, by simp, by simp [Draft.start]⟩
    have writes := (lowerBlock_writes layout symbols function.body []).bind (Writes.emit .ret)
    obtain ⟨ready, continues, placed⟩ := writes _ s [] wrote start
    obtain ⟨becomes, name, params, locals, same, labels⟩ := Draft.finish_becomes finished
    rw [List.nil_append, List.append_nil] at ready placed
    refine ⟨name.trans continues.name, params.trans continues.params, locals.trans ready.locals, ?_⟩
    obtain ⟨-, stop, code, has, size⟩ :=
      placed routine function.body.locals 0 becomes (List.prefix_refl _) (Nat.zero_le _)
    refine ⟨stop, code, has, by rw [same, size], fun label pc leads => ?_⟩
    rw [same]
    exact ready.marks label pc (labels label pc leads)

end LetChain
