import LetChain.Compilation
import LetChain.Proofs.Syntax.Spread
import LetChain.Proofs.Typing.Carried

/-! Every place that a tree or an error names is made of whole tokens of the source. -/

namespace LetChain

/-! ### Tokens of a source -/

theorem Span.Marks.between {a b span : Span} {source text text' : String}
    (first : a.Marks source text) (last : b.Marks source text') (isLo : span.lo = a.lo)
    (isHi : span.hi = b.hi) : ∃ inner, span.Marks source inner := by
  obtain ⟨before, after, whole, lo, -⟩ := first
  obtain ⟨before', after', whole', lo', length'⟩ := last
  have hi : span.hi = (before' ++ text').utf8ByteSize := by
    rw [isHi, Span.hi, lo', length', String.utf8ByteSize_append]
  have bounds : span.lo + span.length = span.hi := rfl
  have start : before.toList <+: source.toList :=
    ⟨text.toList ++ after.toList, by simp [whole, String.toList_append]⟩
  have stop : (before' ++ text').toList <+: source.toList :=
    ⟨after'.toList, by simp [whole', String.toList_append]⟩
  rcases List.prefix_or_prefix_of_prefix start stop with ⟨inner, split⟩ | ⟨excess, split⟩
  · have parts : before' ++ text' = before ++ String.ofList inner := by
      rw [← String.toList_inj, ← split]
      simp [String.toList_append]
    rw [parts, String.utf8ByteSize_append] at hi
    exact ⟨String.ofList inner, before, after', by rw [whole', parts], isLo.trans lo, by omega⟩
  · -- The start lies after the stop only if nothing is between them.
    have parts : before = before' ++ text' ++ String.ofList excess := by
      rw [← String.toList_inj, ← split]
      simp [String.toList_append]
    have size := congrArg String.utf8ByteSize parts
    rw [String.utf8ByteSize_append] at size
    refine ⟨"", before, text ++ after, ?_, isLo.trans lo, ?_⟩
    · rw [whole]
      simp [String.append_assoc]
    · rw [String.utf8ByteSize_empty]
      omega

theorem Token.solid_subset (tokens : List Token) : solid tokens ⊆ tokens :=
  List.filter_sublist.subset

section Source

variable {source : String} (fits : source.utf8ByteSize ≤ Span.maxLength)

include fits

theorem Token.scan_marks {token : Token} (member : token ∈ scan source) :
    token.span.Marks source token.text := by
  obtain ⟨_, _, _, _, heads⟩ := (scan_cuts source).heads member
  exact heads.marks (heads.short fits)

theorem Token.scan_row : Row (solid (scan source)) where
  ended := (scan_cuts source).ended.solid
  ordered := by
    have adjacent := (scan_cuts source).adjacent fits
    have trans : IsTrans Token fun token next => token.span.hi ≤ next.span.lo :=
      ⟨fun _ next _ first second => Nat.le_trans first (Nat.le_trans next.span.lo_le_hi second)⟩
    have ordered := List.isChain_iff_pairwise.mp
      (adjacent.imp fun token next together => Nat.le_of_eq together)
    exact ordered.sublist List.filter_sublist
  bounded token member :=
    Nat.le_trans (scan_marks fits (solid_subset _ member)).hi_le fits
  filled token member := by
    obtain ⟨present, content⟩ := mem_written.mp member
    obtain ⟨_, _, _, _, heads⟩ := (scan_cuts source).heads (solid_subset _ present)
    exact (heads.lo_lt_hi fits content).1

theorem Span.Aligned.marks {span : Span} (aligned : span.Aligned (Token.scan source)) :
    ∃ text, span.Marks source text := by
  obtain ⟨⟨first, isFirst, lo⟩, last, isLast, hi⟩ := aligned
  exact (Token.scan_marks fits isFirst).between (Token.scan_marks fits isLast) lo hi

end Source

/-! ### Trees -/

namespace Region

/-- The region is made of whole tokens, an identifier holds its own name, and the parts lie inside
one after another. -/
structure Faithful (source : String) (region : Region) : Prop where
  aligned : region.span.Aligned (Token.written (Token.solid (Token.scan source)))
  nonempty : region.span.lo < region.span.hi
  slice : ∃ text, region.span.slice? source = some text ∧
    ∀ name, region.name? = some name → text = name
  contains : ∀ part ∈ region.parts,
    region.span.lo ≤ part.span.lo ∧ part.span.hi ≤ region.span.hi
  ordered : region.parts.Pairwise fun part next => part.span.hi ≤ next.span.lo

variable {tokens : List Token} {lo hi : Nat}

theorem Spread.contains {regions : List Region} (spread : Spread tokens lo regions hi) :
    ∀ region ∈ regions, lo ≤ region.span.lo ∧ region.span.hi ≤ hi := by
  induction regions generalizing lo with
  | nil => simp
  | cons first rest ih =>
    obtain ⟨before, -, later⟩ := spread_cons.mp spread
    have past := Nat.le_trans before first.span.lo_le_hi
    intro region member
    rcases List.mem_cons.mp member with rfl | inRest
    · exact ⟨before, later.le⟩
    · exact ih (later.from_le past) region inRest

theorem Spread.ordered {regions : List Region} (spread : Spread tokens lo regions hi) :
    regions.Pairwise fun region next => region.span.hi ≤ next.span.lo := by
  induction regions generalizing lo with
  | nil => exact .nil
  | cons first rest ih =>
    obtain ⟨-, -, later⟩ := spread_cons.mp spread
    exact List.pairwise_cons.mpr ⟨fun next member => (later.contains next member).1, ih later⟩

mutual

theorem Exact.each : ∀ region : Region, region.Exact tokens →
    ∀ inner ∈ region.all, inner.Exact tokens
  | mk span name? parts, exact, inner, member => by
    rw [all] at member
    rcases List.mem_cons.mp member with rfl | inside
    · exact exact
    · obtain ⟨-, -, -, spread⟩ := exact_mk.mp exact
      exact Spread.each parts spread inner inside

theorem Spread.each : ∀ (regions : List Region) {lo hi : Nat}, Spread tokens lo regions hi →
    ∀ inner ∈ allOf regions, inner.Exact tokens
  | [], _, _, _, inner, member => by simp [allOf] at member
  | first :: rest, _, _, spread, inner, member => by
    obtain ⟨-, exact, later⟩ := spread_cons.mp spread
    rw [allOf] at member
    rcases List.mem_append.mp member with here | inRest
    · exact Exact.each first exact inner here
    · exact Spread.each rest later inner inRest

end

theorem Exact.faithful {source : String} (fits : source.utf8ByteSize ≤ Span.maxLength)
    {region : Region} (exact : region.Exact (Token.solid (Token.scan source))) :
    region.Faithful source := by
  have aligned := exact.aligned
  have nonempty := exact.lo_lt_hi
  obtain ⟨span, name?, parts⟩ := region
  obtain ⟨-, -, named, spread⟩ := exact_mk.mp exact
  refine ⟨aligned, nonempty, ?_, spread.contains, spread.ordered⟩
  have onTokens := (aligned.mono (Token.written_subset _)).mono (Token.solid_subset _)
  obtain ⟨text, marks⟩ := onTokens.marks fits
  refine ⟨text, marks.slice, fun name isName => ?_⟩
  obtain ⟨token, member, same, rfl⟩ := named name isName
  have slice := (Token.scan_marks fits (Token.solid_subset _ member)).slice
  rw [same] at slice
  exact Option.some.inj (marks.slice.symm.trans slice)

end Region

/-! ### Errors -/

/-- The place of an error: that of whole tokens inside the source. -/
structure Span.OnTokens (span : Span) (source : String) : Prop where
  pinned : Token.Pinned (Token.solid (Token.scan source)) span
  inside : span.hi ≤ source.utf8ByteSize
  slice : ∃ text, span.slice? source = some text

theorem Token.Pinned.onTokens {span : Span} {source : String}
    (fits : source.utf8ByteSize ≤ Span.maxLength)
    (pinned : Token.Pinned (Token.solid (Token.scan source)) span) : span.OnTokens source := by
  have aligned : span.Aligned (Token.solid (Token.scan source)) := by
    rcases pinned with aligned | ⟨token, member, rfl⟩
    · exact aligned.mono (Token.written_subset _)
    · exact Token.aligned member
  obtain ⟨text, marks⟩ := (aligned.mono (Token.solid_subset _)).marks fits
  exact ⟨pinned, marks.hi_le, text, marks.slice⟩

theorem parseWith_places {α : Type} {reader : Nat → Reader α} {regions : α → List Region}
    {source : String}
    (lays : ∀ fuel, Reader.Lays (Token.solid (Token.scan source)) regions (reader fuel))
    (names : NameTable) :
    match (parseWith reader source names).1 with
    | .ok a => ∃ lo hi, Region.Spread (Token.solid (Token.scan source)) lo (regions a) hi
    | .error error => Token.Pinned (Token.solid (Token.scan source)) error.span := by
  rw [parseWith]
  dsimp only
  cases found : (Token.scan source).find? fun token => token.kind.isError with
  | some bad =>
    have isError : bad.kind.isError = true := by simpa using List.find?_some found
    refine Token.pinned (List.mem_filter.mpr ⟨List.mem_of_find?_eq_some found, ?_⟩)
    cases kind : bad.kind <;> simp_all [TokenKind.isError, TokenKind.isTrivia]
  | none =>
    obtain ⟨first, rest, split, start, -⟩ :=
      Cursor.ofTokens_eq (Token.scan_cuts source).ended names.register
    have on : (Cursor.ofTokens (Token.scan source) names.register).On
        (Token.solid (Token.scan source)) := by
      rw [start, split]
      exact List.suffix_refl _
    have ran := lays (8 * (Token.scan source).length + 16) _ _ on rfl
    dsimp only
    cases result : reader (8 * (Token.scan source).length + 16)
        (Cursor.ofTokens (Token.scan source) names.register) with
    | ok a cursor =>
      rw [result] at ran
      exact ⟨_, _, ran.2⟩
    | error error cursor =>
      rw [result] at ran
      exact ran

theorem Module.resolve_error_mem {m : Module .parsed} {names : NameTable} {error : CompileError}
    {span : Span} (failed : m.resolve names = .error error) (isSpan : error.span? = some span) :
    ∃ region ∈ Region.allOf m.regions, region.span = span := by
  by_contra absent
  have other : Span.ofBounds (span.lo + 1) span.hi ≠ span := by
    intro same
    have := congrArg Span.lo same
    simp [Span.ofBounds] at this
  let move (found : Span) : Span :=
    if found = span then Span.ofBounds (span.lo + 1) span.hi else found
  have stays : m.relocate move = m := by
    refine Module.relocate_eq_self fun region member => if_neg fun same => ?_
    exact absent ⟨region, member, same⟩
  have moved := m.resolve_relocate move names
  rw [stays, failed] at moved
  have same : error = error.relocate move := Except.error.inj moved
  have spans := congrArg CompileError.span? same
  have elsewhere : (error.relocate move).span? = some (move span) := by
    cases error with
    | lower error => cases isSpan
    | _ => cases isSpan; rfl
  rw [isSpan, elsewhere] at spans
  exact other ((if_pos rfl).symm.trans (Option.some.inj spans).symm)

theorem compileWith_error_parse {source : String} {names : NameTable} {error : CompileError}
    {span : Span} (failed : (compileWith source names).1 = .error (.error error))
    (isSpan : error.span? = some span) :
    (∃ cause, (parseModule source names).1 = .error cause ∧ cause.span = span) ∨
      ∃ m, (parseModule source names).1 = .ok m ∧
        m.resolve (parseModule source names).2 = .error error := by
  rw [compileWith, resolveSource] at failed
  rcases parsed : parseModule source names with ⟨cause | m, names'⟩
  · rw [parsed] at failed
    cases failed
    exact Or.inl ⟨cause, rfl, Option.some.inj isSpan⟩
  · rw [parsed] at failed
    refine Or.inr ⟨m, rfl, ?_⟩
    dsimp only at failed ⊢
    cases resolved : m.resolve names' with
    | error cause =>
      rw [resolved] at failed
      cases failed
      rfl
    | ok resolved' =>
      -- Errors of lowering have no place.
      rw [resolved] at failed
      dsimp only at failed
      cases generated : resolved'.module.generate resolved'.symbols names'.mainName? with
      | ok program => simp [generated] at failed
      | error halt =>
        cases halt with
        | fault why => simp [generated, Halt.map] at failed
        | error cause =>
          simp only [generated, Halt.map, Except.error.injEq, Halt.error.injEq] at failed
          subst failed
          cases isSpan

/-- Every place in a tree is made of whole tokens, with its parts inside it one after another, and
every error that has a place is at whole tokens. -/
theorem spans_faithful {source : String} (fits : source.utf8ByteSize ≤ Span.maxLength)
    (names : NameTable) :
    (∀ m, (parseModule source names).1 = .ok m →
      (m.regions.Pairwise fun region next => region.span.hi ≤ next.span.lo) ∧
        ∀ region ∈ Region.allOf m.regions, region.Faithful source) ∧
    (∀ e, (parseExpr source names).1 = .ok e →
      ∀ region ∈ e.region.all, region.Faithful source) ∧
    (∀ error, (parseExpr source names).1 = .error error → error.span.OnTokens source) ∧
    ∀ error span, (compileWith source names).1 = .error (.error error) →
      error.span? = some span → span.OnTokens source := by
  have row := Token.scan_row fits
  have modules := parseWith_places (Reader.Places.module row) names
  have exprs := parseWith_places (Reader.Places.expression row) names
  rw [← parseModule] at modules
  rw [← parseExpr] at exprs
  refine ⟨fun m parsed => ?_, fun e parsed => ?_, fun error parsed => ?_,
    fun error span failed isSpan => ?_⟩
  · rw [parsed] at modules
    obtain ⟨lo, hi, spread⟩ := modules
    exact ⟨spread.ordered, fun region member =>
      (Region.Spread.each m.regions spread region member).faithful fits⟩
  · rw [parsed] at exprs
    obtain ⟨lo, hi, spread⟩ := exprs
    have exact := (Region.spread_one.mp spread).2.1
    exact fun region member => (Region.Exact.each e.region exact region member).faithful fits
  · rw [parsed] at exprs
    exact Token.Pinned.onTokens fits exprs
  · rcases compileWith_error_parse failed isSpan with ⟨cause, parsed, rfl⟩ | ⟨m, parsed, unresolved⟩
    · rw [parsed] at modules
      exact Token.Pinned.onTokens fits modules
    · rw [parsed] at modules
      obtain ⟨lo, hi, spread⟩ := modules
      obtain ⟨region, member, rfl⟩ := Module.resolve_error_mem unresolved isSpan
      have exact := Region.Spread.each m.regions spread region member
      exact Token.Pinned.onTokens fits (Or.inl exact.aligned)

def mismatchText : String := "func Main()->Boolean\x7b\"é\" .. (true)//\n\x7d"

def typeError? {α : Type} : Except (Halt CompileError) α → Option (Located TypeError)
  | .error (.error (.type error)) => some error
  | _ => none

theorem typeError?_eq_some {α : Type} {result : Except (Halt CompileError) α}
    {error : Located TypeError} (found : typeError? result = some error) :
    result = .error (.error (.type error)) := by
  unfold typeError? at found
  split at found
  · cases found
    rfl
  · cases found

theorem spans_faithful_mismatchText : mismatchText.utf8ByteSize ≤ Span.maxLength ∧
    (∃ m, (parseModule mismatchText .empty).1 = .ok m ∧
      ∀ region ∈ Region.allOf m.regions, region.Faithful mismatchText) ∧
    ∃ error, (compileWith mismatchText .empty).1 = .error (.error (.type error)) ∧
      error.span = Span.ofBounds 21 34 ∧ error.span.OnTokens mismatchText := by
  have fits : mismatchText.utf8ByteSize ≤ Span.maxLength := by decide
  obtain ⟨modules, -, -, errors⟩ := spans_faithful fits .empty
  obtain ⟨error, failed, place⟩ : ∃ error,
      (compileWith mismatchText .empty).1 = .error (.error (.type error)) ∧
        error.span = Span.ofBounds 21 34 := by
    have fails : (typeError? (compileWith mismatchText .empty).1).any
        (·.span = Span.ofBounds 21 34) = true := by
      have chars : mismatchText.toList = _ := String.toList_ofList
      rw [compileWith, resolveSource, parseModule, parseWith, Token.scan, chars]
      cbv
    obtain ⟨error, found, place⟩ := (Option.any_eq_true _ _).mp fails
    exact ⟨error, typeError?_eq_some found, of_decide_eq_true place⟩
  refine ⟨fits, ?_, error, failed, place, errors _ _ failed rfl⟩
  rcases parsed : parseModule mismatchText .empty with ⟨cause | m, names⟩
  · rw [compileWith, resolveSource, parsed] at failed
    cases failed
  · exact ⟨m, rfl, (modules m (by rw [parsed])).2⟩

end LetChain
