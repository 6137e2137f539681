import LetChain.Proofs.Lowering.Relocated
import LetChain.Proofs.Naming.Handles

/-! Sources that are compiled one after another with one table of names do not influence each other.
Identifiers, scopes, record types and fields know a name only by the handle that the table gave it,
and what comes out is spelled with the table again. -/

namespace LetChain

namespace NameTable

/-- A handle as so many strokes. -/
def strokes (handle : Nat) : String := String.ofList (List.replicate handle '|')

/-- A name as its handle, or as something else if the table does not know it. -/
def keyOr (names : NameTable) (other : String → String) (name : String) : String :=
  if name = "" then "" else ((names.handle? name).map strokes).getD (other name)

/-- Names are known by their handles alone. -/
def keying (names : NameTable) : Wording := .ofName (names.keyOr fun _ => "")

def spell (names : NameTable) (key : String) : String := (names.name? key.length).getD ""

def spelling (names : NameTable) : Wording := .ofName names.spell

/-- The table in which every name is its own handle. -/
def keys (names : NameTable) : NameTable :=
  ⟨(Array.range names.size).map fun index => strokes (index + 1), ∅⟩

theorem name?_keys (names : NameTable) (handle : Nat) :
    names.keys.name? handle = (names.name? handle).map fun _ => strokes handle := by
  cases handle with
  | zero => rfl
  | succ index =>
    have size : names.names.size = names.size := rfl
    by_cases low : index < names.size
    · simp [keys, name?, low, size]
    · simp [keys, name?, low, size]

/-! ### Marks

A name that the table does not know would be lost. With marks for such names nothing is lost. A tree
or an error that is the same with either of two marks has no such name. -/

def marking (names : NameTable) (mark : Char) : Wording :=
  .ofName (names.keyOr fun name => String.ofList (mark :: name.toList))

theorem name_marking (names : NameTable) (mark : Char) (name : String) :
    (names.marking mark).name name =
      names.keyOr (fun name => String.ofList (mark :: name.toList)) name := rfl

def unmark (names : NameTable) (mark : Char) (key : String) : String :=
  if key.toList.head? = some mark then String.ofList key.toList.tail else names.spell key

/-- Only names that the table knows are in it. -/
def Covers {α : Type} (names : NameTable) (carry : Wording → α → α) (a : α) : Prop :=
  ∀ spell spell' : String → String, (∀ name handle, names.handle? name = some handle →
    spell name = spell' name) → carry (.ofName spell) a = carry (.ofName spell') a

theorem toList_strokes (index : Nat) :
    (strokes (index + 1)).toList = '|' :: List.replicate index '|' := by
  simp [strokes, List.replicate_succ]

theorem head?_marking (names : NameTable) {mark other : Char} (plain : mark ≠ '|')
    (differs : mark ≠ other) (name : String) :
    ((names.marking other).name name).toList.head? ≠ some mark := by
  rw [name_marking, keyOr]
  split
  · simp
  · cases names.handle? name with
    | none => simpa using differs.symm
    | some handle =>
      cases handle with
      | zero => simp [strokes]
      | succ index => simpa [toList_strokes] using plain.symm

namespace Inverse

variable {names : NameTable} (inverse : names.Inverse)

include inverse

theorem keyOr_known {name : String} {handle : Nat} (known : names.handle? name = some handle)
    (other : String → String) : names.spell (names.keyOr other name) = name := by
  rw [keyOr]
  split
  · subst name
    rfl
  · have isName := (inverse name handle).mp known
    simp [known, spell, strokes, isName]

theorem unmark_marking {mark : Char} (plain : mark ≠ '|') (name : String) :
    names.unmark mark ((names.marking mark).name name) = name := by
  cases found : names.handle? name with
  | none =>
    rw [name_marking, keyOr, found]
    split
    · subst name
      rfl
    · simp [unmark]
  | some handle =>
    have known := inverse.keyOr_known found fun name => String.ofList (mark :: name.toList)
    rw [unmark, if_neg]
    · exact known
    · rw [name_marking, keyOr, found]
      split
      · simp
      · cases handle with
        | zero => simp [strokes]
        | succ index => simpa [toList_strokes] using plain.symm

theorem marking_lawful (mark : Char) (plain : mark ≠ '|') : (names.marking mark).Lawful where
  blank := by simp [name_marking, keyOr]
  injective {a b} same := by
    rw [← inverse.unmark_marking plain a, ← inverse.unmark_marking plain b, same]

/-- What is the same with either mark is spelled as it was. -/
theorem spelled {α : Type} {carry : Wording → α → α}
    (twice : ∀ w w' a, carry w' (carry w a) = carry (w.andThen w') a)
    (self : ∀ a, carry (.ofName id) a = a) {a : α}
    (same : carry (names.marking '!') a = carry (names.marking '?') a) :
    carry names.spelling (carry (names.marking '!') a) = a := by
  let undo : Wording := .ofName (names.unmark '?')
  have undone : (names.marking '?').andThen undo = .ofName id :=
    congrArg Wording.ofName (funext (inverse.unmark_marking (by decide)))
  have alike : (names.marking '!').andThen undo = (names.marking '!').andThen names.spelling :=
    congrArg Wording.ofName
      (funext fun name => if_neg (head?_marking names (by decide) (by decide) name))
  calc carry names.spelling (carry (names.marking '!') a)
    _ = carry undo (carry (names.marking '!') a) := by rw [twice, ← alike, twice]
    _ = carry undo (carry (names.marking '?') a) := by rw [same]
    _ = a := by rw [twice, undone, self]

end Inverse

end NameTable

/-! ### Checking and lowering with handles -/

/-- The module with handles for its names is checked against the handles of the built-in types. -/
def Module.resolveKeys (m : Module .parsed) (names : NameTable) : Except CompileError Resolved :=
  (m.carry names.keying.parsed).resolve names.keys

/-- The entry point is found by its handle. The names that a program shows are spelled. -/
def Resolved.generateKeys (keyed : Resolved) (names : NameTable) :
    Except (Halt LowerError) Program := do
  let main ← (keyed.module.mainSymbol names.keys.mainName?).mapError Halt.error
  let spelled := keyed.carry names.spelling
  spelled.module.generateFrom spelled.symbols main

def Stage.runKeys (stage : Stage) (source : String) (names : NameTable) : Answer × NameTable :=
  match stage with
  | .expr =>
    let (result, names) := parseExpr source names
    (.expr (result.map fun e => (e.carry names.keying.parsed).carry names.spelling.parsed), names)
  | .module =>
    let (result, names) := parseModule source names
    (.module (result.map fun m => (m.carry names.keying.parsed).carry names.spelling.parsed), names)
  | .bind =>
    match parseModule source names with
    | (.error error, names) => (.bind (.error (.parse error)), names)
    | (.ok m, names) =>
      (.bind (((m.resolveKeys names).map (Resolved.carry names.spelling)).mapError
        (CompileError.carry names.spelling)), names)
  | .lower =>
    match parseModule source names with
    | (.error error, names) => (.lower (.error (.error (.parse error))), names)
    | (.ok m, names) =>
      match m.resolveKeys names with
      | .error error => (.lower (.error (.error (error.carry names.spelling))), names)
      | .ok keyed =>
        match keyed.generateKeys names with
        | .error halt => (.lower (.error (halt.map CompileError.lower)), names)
        | .ok program => (.lower (.ok ⟨keyed.carry names.spelling, program⟩), names)

/-! ### One source -/

theorem Resolved.carry_self (resolved : Resolved) : resolved.carry (.ofPlace id) = resolved := by
  rw [carry_ofPlace, relocate, Module.relocate_eq_self fun _ _ => rfl]
  exact congrArg (Resolved.mk _) (Array.map_id _)

namespace NameTable

/-- Names and handles determine each other, and the built-in names come first. -/
structure Ready (names : NameTable) : Prop where
  inverse : names.Inverse
  builtin : ∀ index < 5, names.name? (index + 1) = builtinNames[index]?

theorem Begun.ready {names names' : NameTable} (begun : names.Begun) {learned : List String}
    (after : names' = names.register.insertAll learned) :
    Ready names' ∧ ∀ name ∈ learned, ∃ handle, names'.handle? name = some handle := by
  subst after
  have builtin := fun index (low : index < 5) => begun.name?_insertAll learned low
  obtain ⟨before, isBegun⟩ := begun
  have registered : Holds empty.register (askedAfter [] .register) := holds_empty.serve .register
  rw [isBegun, insertAll_append] at builtin ⊢
  have holds := registered.insertAll (before ++ learned)
  refine ⟨⟨holds.inverse, builtin⟩, fun name member => holds.inverse.mem_iff.mp ?_⟩
  rw [holds.order, List.mem_eraseDups]
  simp [member]

namespace Ready

variable {names : NameTable} (ready : names.Ready)

include ready

theorem name?_keys (mark : Char) {index : Nat} (low : index < 5) :
    names.keys.name? (index + 1) = (names.name? (index + 1)).map (names.marking mark).name := by
  have isName := ready.builtin index low
  have named : ∀ name ∈ builtinNames, name ≠ "" := by decide
  rw [List.getElem?_eq_getElem low] at isName
  have known := (ready.inverse _ _).mpr isName
  rw [NameTable.name?_keys, isName, Option.map_some, Option.map_some, name_marking, keyOr,
    if_neg (named _ (List.getElem_mem low)), known]
  rfl

theorem spelled {α : Type} (carry : Wording → α → α)
    (twice : ∀ w w' a, carry w' (carry w a) = carry (w.andThen w') a)
    (self : ∀ a, carry (.ofName id) a = a) {a : α} (covers : names.Covers carry a) :
    carry names.spelling (carry names.keying a) = a := by
  rw [twice]
  exact (covers _ id fun name handle known => ready.inverse.keyOr_known known _).trans (self a)

section Module

variable {m : Module .parsed} (covers : names.Covers (fun w => Module.carry w.parsed) m)

include covers

theorem resolveKeys (mark : Char) (plain : mark ≠ '|') : m.resolveKeys names =
    ((m.resolve names).map (Resolved.carry (names.marking mark))).mapError
      (CompileError.carry (names.marking mark)) := by
  have marked := covers (names.keyOr fun _ => "")
    (names.keyOr fun name => String.ofList (mark :: name.toList)) fun name handle known => by
      simp [keyOr, known]
  have same := fun index (low : index < 4) => ready.name?_keys mark (Nat.lt_succ_of_lt low)
  have moved := m.resolve_carry (ready.inverse.marking_lawful mark plain) same
  rw [← moved]
  exact congrArg (Module.resolve · names.keys) marked

theorem resolveKeys_error {error : CompileError} (failed : m.resolve names = .error error) :
    ∃ keyed, m.resolveKeys names = .error keyed ∧ keyed.carry names.spelling = error := by
  have here := ready.resolveKeys covers '!' (by decide)
  have there := ready.resolveKeys covers '?' (by decide)
  rw [failed] at here there
  refine ⟨_, here, ready.inverse.spelled (fun _ _ error => error.carry_carry) (fun error => ?_)
    (Except.error.inj (here.symm.trans there))⟩
  exact (error.carry_ofPlace id).trans (by cases error <;> rfl)

theorem resolveKeys_ok {resolved : Resolved} (ran : m.resolve names = .ok resolved) :
    ∃ keyed, m.resolveKeys names = .ok keyed ∧ keyed.carry names.spelling = resolved ∧
      keyed.generateKeys names = resolved.module.generate resolved.symbols names.mainName? := by
  have here := ready.resolveKeys covers '!' (by decide)
  have there := ready.resolveKeys covers '?' (by decide)
  rw [ran] at here there
  have back := ready.inverse.spelled (fun _ _ resolved => resolved.carry_carry)
    Resolved.carry_self (Except.ok.inj (here.symm.trans there))
  refine ⟨_, here, back, ?_⟩
  have main : names.keys.mainName? = names.mainName?.map (names.marking '!').name :=
    ready.name?_keys '!' (by decide)
  have found := resolved.module.mainSymbol_carry
    (ready.inverse.marking_lawful '!' (by decide)) names.mainName?
  rw [Resolved.generateKeys, main, back, Module.generate]
  change ((resolved.module.carry (names.marking '!').typed).mainSymbol _).mapError _ >>= _ = _
  rw [found]

end Module

end Ready

end NameTable

/-- Handles do for names: what comes out is what the names themselves give. -/
theorem Stage.runKeys_eq {names : NameTable} (begun : names.Begun) (stage : Stage)
    (source : String) : stage.runKeys source names = stage.run source names := by
  obtain ⟨-, learned, after, -, covers⟩ := parseModule_names source names .empty
  obtain ⟨-, learned', after', -, covers'⟩ := parseExpr_names source names .empty
  obtain ⟨ready, known⟩ := begun.ready after
  obtain ⟨ready', known'⟩ := begun.ready after'
  have covers (m : Module .parsed) (ran : (parseModule source names).1 = .ok m) :
      (parseModule source names).2.Covers (fun w => Module.carry w.parsed) m :=
    fun spell spell' same => covers m ran spell spell' fun name member =>
      same name _ (known name member).choose_spec
  cases stage with
  | expr =>
    rw [runKeys, run]
    generalize parseExpr source names = parsed at ready' known' covers'
    obtain ⟨error | e, names⟩ := parsed
    · rfl
    · have back := ready'.spelled (fun w => Expr.carry w.parsed)
        (fun _ _ e => e.carry_carry) (fun e => e.relocate_id) fun spell spell' same =>
          covers' e rfl spell spell' fun name member => same name _ (known' name member).choose_spec
      exact congrArg (fun e => (Answer.expr (.ok e), names)) back
  | module =>
    rw [runKeys, run]
    generalize parseModule source names = parsed at ready covers
    obtain ⟨error | m, names⟩ := parsed
    · rfl
    · have back := ready.spelled (fun w => Module.carry w.parsed) (fun _ _ m => m.carry_carry)
        (fun _ => Module.relocate_eq_self fun _ _ => rfl) (covers m rfl)
      exact congrArg (fun m => (Answer.module (.ok m), names)) back
  | bind =>
    rw [runKeys, run, resolveSource]
    generalize parseModule source names = parsed at ready covers
    obtain ⟨error | m, names⟩ := parsed
    · rfl
    · dsimp only
      cases ran : m.resolve names with
      | error error =>
        obtain ⟨keyed, ran', rfl⟩ := ready.resolveKeys_error (covers m rfl) ran
        rw [ran']
        rfl
      | ok resolved =>
        obtain ⟨keyed, ran', rfl, -⟩ := ready.resolveKeys_ok (covers m rfl) ran
        rw [ran']
        rfl
  | lower =>
    rw [runKeys, run, compileWith, resolveSource]
    generalize parseModule source names = parsed at ready covers
    obtain ⟨error | m, names⟩ := parsed
    · rfl
    · dsimp only
      cases ran : m.resolve names with
      | error error =>
        obtain ⟨keyed, ran', rfl⟩ := ready.resolveKeys_error (covers m rfl) ran
        rw [ran']
        rfl
      | ok resolved =>
        obtain ⟨keyed, ran', isSpelled, generated⟩ := ready.resolveKeys_ok (covers m rfl) ran
        rw [ran']
        dsimp only
        rw [generated, isSpelled]
        cases resolved.module.generate resolved.symbols names.mainName? <;> rfl

/-! ### Many sources -/

/-- The answers for some sources in order, each with the names that those before it left. -/
def session (names : NameTable) : List (Stage × String) → List Answer × NameTable
  | [] => ([], names)
  | (stage, source) :: rest =>
    let (answer, names) := stage.runKeys source names
    let (answers, names) := session names rest
    (answer :: answers, names)

theorem session_begun (steps : List (Stage × String)) {names : NameTable} (begun : names.Begun) :
    (session names steps).1 = steps.map (fun step => (step.1.runKeys step.2 .empty).1) ∧
      (session names steps).2.Begun ∧ names.Extends (session names steps).2 := by
  induction steps generalizing names with
  | nil => exact ⟨rfl, begun, .refl names⟩
  | cons step rest ih =>
    obtain ⟨stage, source⟩ := step
    obtain ⟨answer, learned, after⟩ := Stage.run_begun begun stage source
    rw [← Stage.runKeys_eq begun, ← Stage.runKeys_eq NameTable.begun_empty] at answer
    rw [← Stage.runKeys_eq begun] at after
    have later : (stage.runKeys source names).2.Begun := after ▸ begun.insertAll learned
    obtain ⟨answers, ends, grows⟩ := ih later
    have grown : names.Extends (stage.runKeys source names).2 :=
      after ▸ names.extends_register.trans (names.register.extends_insertAll learned)
    refine ⟨?_, ends, grown.trans grows⟩
    change (stage.runKeys source names).1 :: (session (stage.runKeys source names).2 rest).1 = _
    rw [answer, answers]
    rfl

theorem session_append (steps more : List (Stage × String)) (names : NameTable) :
    (session names (steps ++ more)).2 = (session (session names steps).2 more).2 := by
  induction steps generalizing names with
  | nil => rfl
  | cons step rest ih => exact ih (step.1.runKeys step.2 names).2

/-- With one table for all of them, each source gives what it gives with a table of its own, whether
those before it failed or not. The table only grows. -/
theorem session_isolated (steps : List (Stage × String)) :
    (session .empty steps).1 = steps.map (fun step => (step.1.runKeys step.2 .empty).1) ∧
      ∀ done more, steps = done ++ more →
        (session .empty done).2.Extends (session .empty steps).2 := by
  refine ⟨(session_begun steps NameTable.begun_empty).1, ?_⟩
  rintro done more rfl
  rw [session_append]
  exact (session_begun more (session_begun done NameTable.begun_empty).2.1).2.2

end LetChain
