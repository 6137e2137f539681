import LetChain.Proofs.Syntax.Mirrored
import LetChain.Proofs.Syntax.Regions

/-! Where the grammar puts what it reads. A node reaches from the start of one token to the end of
another, and its parts lie in it one after another. An error is put at tokens too. -/

namespace LetChain

namespace Span

def Aligned (span : Span) (tokens : List Token) : Prop :=
  (∃ first ∈ tokens, span.lo = first.span.lo) ∧ ∃ last ∈ tokens, span.hi = last.span.hi

theorem lo_le_hi (span : Span) : span.lo ≤ span.hi := Nat.le_add_right _ _

theorem Aligned.mono {span : Span} {tokens more : List Token} (aligned : span.Aligned tokens)
    (subset : tokens ⊆ more) : span.Aligned more := by
  obtain ⟨⟨first, isFirst, lo⟩, last, isLast, hi⟩ := aligned
  exact ⟨⟨first, subset isFirst, lo⟩, last, subset isLast, hi⟩

theorem join_bounds {a b : Span} (before : a.hi ≤ b.lo) (bounded : b.hi ≤ maxLength) :
    (a.join b).lo = a.lo ∧ (a.join b).hi = b.hi := by
  have := a.lo_le_hi
  have := b.lo_le_hi
  have lo : (a.join b).lo = min a.lo b.lo := rfl
  have length : (a.join b).length = min (max a.hi b.hi - min a.lo b.lo) maxLength := rfl
  constructor
  · omega
  · rw [hi, lo, length]
    omega

end Span

namespace Token

/-- All but the end. -/
def written (tokens : List Token) : List Token := tokens.filter fun token => token.kind ≠ .eof

theorem mem_written {tokens : List Token} {token : Token} :
    token ∈ written tokens ↔ token ∈ tokens ∧ token.kind ≠ .eof := by
  simp [written]

theorem written_subset (tokens : List Token) : written tokens ⊆ tokens :=
  fun _ member => (mem_written.mp member).1

theorem aligned {tokens : List Token} {token : Token} (member : token ∈ tokens) :
    token.span.Aligned tokens :=
  ⟨⟨token, member, rfl⟩, token, member, rfl⟩

/-- The place of some tokens before the end, or of one token, which may be the end. -/
def Pinned (tokens : List Token) (span : Span) : Prop :=
  span.Aligned (written tokens) ∨ ∃ token ∈ tokens, token.span = span

theorem pinned {tokens : List Token} {token : Token} (member : token ∈ tokens) :
    Pinned tokens token.span :=
  Or.inr ⟨token, member, rfl⟩

def region (token : Token) : Region := ⟨token.span, none, []⟩

@[simp] theorem span_region (token : Token) : token.region.span = token.span := rfl

structure Row (tokens : List Token) : Prop where
  ended : Ended tokens
  ordered : tokens.Pairwise fun token next => token.span.hi ≤ next.span.lo
  bounded : ∀ token ∈ tokens, token.span.hi ≤ Span.maxLength
  filled : ∀ token ∈ written tokens, token.span.lo < token.span.hi

end Token

namespace Region

variable {tokens : List Token} {lo mid hi : Nat}

mutual

/-- The region and all in it are placed as they should be. An identifier is a token. -/
def Exact (tokens : List Token) : Region → Prop
  | mk span name? parts => span.Aligned (Token.written tokens) ∧ span.lo < span.hi ∧
    (∀ name, name? = some name → ∃ token ∈ tokens, token.span = span ∧ token.text = name) ∧
    Spread tokens span.lo parts span.hi

def Spread (tokens : List Token) : Nat → List Region → Nat → Prop
  | lo, [], hi => lo ≤ hi
  | lo, first :: rest, hi =>
    lo ≤ first.span.lo ∧ first.Exact tokens ∧ Spread tokens first.span.hi rest hi

end

theorem exact_mk {span : Span} {name? : Option String} {parts : List Region} :
    Exact tokens ⟨span, name?, parts⟩ ↔ span.Aligned (Token.written tokens) ∧ span.lo < span.hi ∧
      (∀ name, name? = some name → ∃ token ∈ tokens, token.span = span ∧ token.text = name) ∧
      Spread tokens span.lo parts span.hi :=
  Iff.rfl

theorem spread_nil : Spread tokens lo [] hi ↔ lo ≤ hi := Iff.rfl

theorem spread_cons {first : Region} {rest : List Region} : Spread tokens lo (first :: rest) hi ↔
    lo ≤ first.span.lo ∧ first.Exact tokens ∧ Spread tokens first.span.hi rest hi :=
  Iff.rfl

theorem Exact.aligned {region : Region} (exact : region.Exact tokens) :
    region.span.Aligned (Token.written tokens) := by
  cases region
  exact (exact_mk.mp exact).1

theorem Exact.lo_lt_hi {region : Region} (exact : region.Exact tokens) :
    region.span.lo < region.span.hi := by
  cases region
  exact (exact_mk.mp exact).2.1

theorem spread_one {region : Region} : Spread tokens lo [region] hi ↔
    lo ≤ region.span.lo ∧ region.Exact tokens ∧ region.span.hi ≤ hi := by
  rw [spread_cons, spread_nil]

theorem Spread.le {regions : List Region} (spread : Spread tokens lo regions hi) : lo ≤ hi := by
  induction regions generalizing lo with
  | nil => exact spread_nil.mp spread
  | cons first rest ih =>
    obtain ⟨before, -, later⟩ := spread_cons.mp spread
    exact Nat.le_trans before (Nat.le_trans first.span.lo_le_hi (ih later))

theorem Spread.skip {regions : List Region} (spread : Spread tokens lo regions hi) :
    Spread tokens lo [] hi :=
  spread_nil.mpr spread.le

theorem Spread.from_le {regions : List Region} {lo' : Nat} (spread : Spread tokens lo regions hi)
    (earlier : lo' ≤ lo) : Spread tokens lo' regions hi := by
  cases regions with
  | nil => exact spread_nil.mpr (Nat.le_trans earlier spread.le)
  | cons first rest =>
    obtain ⟨before, exact, later⟩ := spread_cons.mp spread
    exact spread_cons.mpr ⟨Nat.le_trans earlier before, exact, later⟩

theorem Spread.append {regions more : List Region} (first : Spread tokens lo regions mid)
    (second : Spread tokens mid more hi) : Spread tokens lo (regions ++ more) hi := by
  induction regions generalizing lo with
  | nil => exact second.from_le (spread_nil.mp first)
  | cons region rest ih =>
    obtain ⟨before, exact, later⟩ := spread_cons.mp first
    exact spread_cons.mpr ⟨before, exact, ih later⟩

theorem Spread.sublist {regions fewer : List Region} (spread : Spread tokens lo regions hi)
    (sublist : fewer.Sublist regions) : Spread tokens lo fewer hi := by
  induction sublist generalizing lo with
  | slnil => exact spread
  | cons first _ ih =>
    obtain ⟨before, -, later⟩ := spread_cons.mp spread
    exact (ih later).from_le (Nat.le_trans before first.span.lo_le_hi)
  | cons_cons first _ ih =>
    obtain ⟨before, exact, later⟩ := spread_cons.mp spread
    exact spread_cons.mpr ⟨before, exact, ih later⟩

theorem Spread.around {region : Region} (spread : Spread tokens lo [region] hi) :
    Spread tokens lo [⟨region.span, none, [region]⟩] hi := by
  obtain ⟨before, exact, after⟩ := spread_one.mp spread
  refine spread_one.mpr ⟨before, ?_, after⟩
  exact exact_mk.mpr ⟨exact.aligned, exact.lo_lt_hi, nofun,
    spread_one.mpr ⟨Nat.le_refl _, exact, Nat.le_refl _⟩⟩

theorem Exact.hi_le (row : Token.Row tokens) {region : Region} (exact : region.Exact tokens) :
    region.span.hi ≤ Span.maxLength := by
  obtain ⟨-, token, member, isHi⟩ := exact.aligned
  rw [isHi]
  exact row.bounded token (Token.written_subset tokens member)

theorem Spread.enclose (row : Token.Row tokens) {first last : Region} {inner parts : List Region}
    {mid' : Nat} (starts : Spread tokens lo [first] mid) (between : Spread tokens mid inner mid')
    (closes : Spread tokens mid' [last] hi) (within : parts.Sublist (first :: (inner ++ [last]))) :
    Spread tokens lo [⟨first.span.join last.span, none, parts⟩] hi := by
  obtain ⟨before, exactFirst, past⟩ := spread_one.mp starts
  obtain ⟨later, exactLast, stop⟩ := spread_one.mp closes
  have order : first.span.hi ≤ last.span.lo :=
    Nat.le_trans past (Nat.le_trans between.le later)
  obtain ⟨isLo, isHi⟩ := Span.join_bounds order (exactLast.hi_le row)
  have tight : Spread tokens first.span.lo (first :: (inner ++ [last])) last.span.hi :=
    spread_cons.mpr ⟨Nat.le_refl _, exactFirst,
      (between.from_le past).append (spread_one.mpr ⟨later, exactLast, Nat.le_refl _⟩)⟩
  refine spread_one.mpr ⟨Nat.le_trans before (Nat.le_of_eq isLo.symm), ?_,
    Nat.le_trans (Nat.le_of_eq isHi) stop⟩
  rw [exact_mk, Span.Aligned, isLo, isHi]
  refine ⟨⟨exactFirst.aligned.1, exactLast.aligned.2⟩, ?_, nofun, tight.sublist within⟩
  exact Nat.lt_of_lt_of_le exactFirst.lo_lt_hi (Nat.le_trans order last.span.lo_le_hi)

theorem Spread.extend (row : Token.Row tokens) {whole : Span} {next : Region}
    {parts : List Region} (spread : Spread tokens lo [⟨whole, none, parts⟩] mid)
    (after : Spread tokens mid [next] hi) :
    Spread tokens lo [⟨whole.join next.span, none, parts ++ [next]⟩] hi := by
  obtain ⟨before, exact, middle⟩ := spread_one.mp spread
  obtain ⟨start, exactNext, stop⟩ := spread_one.mp after
  obtain ⟨aligned, filled, -, inside⟩ := exact_mk.mp exact
  have order : whole.hi ≤ next.span.lo := Nat.le_trans middle start
  obtain ⟨isLo, isHi⟩ := Span.join_bounds order (exactNext.hi_le row)
  refine spread_one.mpr ⟨Nat.le_trans before (Nat.le_of_eq isLo.symm), ?_,
    Nat.le_trans (Nat.le_of_eq isHi) stop⟩
  rw [exact_mk, Span.Aligned, isLo, isHi]
  refine ⟨⟨aligned.1, exactNext.aligned.2⟩, ?_, nofun,
    inside.append (spread_one.mpr ⟨order, exactNext, Nat.le_refl _⟩)⟩
  exact Nat.lt_of_lt_of_le filled (Nat.le_trans order next.span.lo_le_hi)

end Region

open Region

/-! ### Readers among the tokens -/

def Cursor.On (cursor : Cursor) (tokens : List Token) : Prop :=
  cursor.current :: cursor.ahead <:+ tokens

theorem Cursor.On.mem {cursor : Cursor} {tokens : List Token} (on : cursor.On tokens) :
    cursor.current ∈ tokens :=
  on.subset List.mem_cons_self

theorem Cursor.On.step {cursor : Cursor} {tokens : List Token} (on : cursor.On tokens) :
    cursor.step.On tokens := by
  obtain ⟨current, ahead, names⟩ := cursor
  cases ahead with
  | nil => exact on
  | cons next rest => exact (List.suffix_cons current (next :: rest)).trans on

theorem Cursor.On.step_le {cursor : Cursor} {tokens : List Token} (on : cursor.On tokens)
    (row : Token.Row tokens) : cursor.current.span.lo ≤ cursor.step.current.span.lo := by
  obtain ⟨current, ahead, names⟩ := cursor
  cases ahead with
  | nil => exact Nat.le_refl _
  | cons next rest =>
    have ordered := row.ordered.sublist on.sublist
    exact Nat.le_trans current.span.lo_le_hi
      ((List.pairwise_cons.mp ordered).1 next List.mem_cons_self)

theorem Cursor.On.step_lo {cursor : Cursor} {tokens : List Token} (on : cursor.On tokens)
    (row : Token.Row tokens) (content : cursor.current.kind ≠ .eof) :
    cursor.current.span.hi ≤ cursor.step.current.span.lo := by
  obtain ⟨current, ahead, names⟩ := cursor
  cases ahead with
  | nil =>
    obtain ⟨others, last, parts, isEnd, -⟩ := row.ended
    obtain ⟨before, whole⟩ := on
    have same : current = last := by
      have lasts := congrArg List.getLast? (whole.trans parts)
      simpa using lasts
    exact absurd (same ▸ isEnd) content
  | cons next rest =>
    have ordered := row.ordered.sublist on.sublist
    exact (List.pairwise_cons.mp ordered).1 next List.mem_cons_self

namespace Reader

variable {α β : Type} {tokens : List Token} {start : Token} {good : α → Token → Prop}
  {good' : β → Token → Prop}

/-- Before the token `start`, the reader stays among the tokens, and what it gives fits the token
that it stops before. If it fails, it does so at tokens. -/
def Places (tokens : List Token) (start : Token) (good : α → Token → Prop) (reader : Reader α) :
    Prop :=
  ∀ cursor, cursor.On tokens → cursor.current = start →
    match reader cursor with
    | .ok a cursor' => cursor'.On tokens ∧ good a cursor'.current
    | .error error _ => Token.Pinned tokens error.span

/-- Wherever it starts, the reader gives regions that lie between where it starts and where it
stops. -/
abbrev Lays (tokens : List Token) (regions : α → List Region) (reader : Reader α) : Prop :=
  ∀ start, Places tokens start
    (fun a stop => Spread tokens start.span.lo (regions a) stop.span.lo) reader

namespace Places

theorem pure {a : α} (isGood : good a start) : Places tokens start good (Pure.pure a) :=
  fun _ on isStart => ⟨on, isStart ▸ isGood⟩

theorem fail {span : Span} {error : ParseError} (pinned : Token.Pinned tokens span) :
    Places tokens start good (fail span error) := fun _ _ _ => pinned

theorem bind {reader : Reader α} {next : α → Reader β} (first : Places tokens start good reader)
    (rest : ∀ a mid, good a mid → Places tokens mid good' (next a)) :
    Places tokens start good' (reader >>= next) := by
  intro cursor on isStart
  have ran := first cursor on isStart
  change match EStateM.bind reader next cursor with
    | .ok b cursor' => cursor'.On tokens ∧ good' b cursor'.current
    | .error error _ => Token.Pinned tokens error.span
  rw [EStateM.bind]
  cases result : reader cursor with
  | error error later =>
    rw [result] at ran
    exact ran
  | ok a later =>
    rw [result] at ran
    exact rest a later.current ran.2 later ran.1 rfl

theorem mono {good' : α → Token → Prop} {reader : Reader α}
    (places : Places tokens start good reader) (weaker : ∀ a stop, good a stop → good' a stop) :
    Places tokens start good' reader := by
  intro cursor on isStart
  have ran := places cursor on isStart
  cases result : reader cursor with
  | error error later =>
    rw [result] at ran
    exact ran
  | ok a later =>
    rw [result] at ran
    exact ⟨ran.1, weaker a later.current ran.2⟩

theorem ite {cond : Prop} [Decidable cond] {yes no : Reader α}
    (ifYes : Places tokens start good yes) (ifNo : Places tokens start good no) :
    Places tokens start good (if cond then yes else no) := by
  by_cases holds : cond
  · simpa only [if_pos holds] using ifYes
  · simpa only [if_neg holds] using ifNo

theorem get_bind {next : Cursor → Reader β}
    (rest : ∀ cursor, cursor.current = start → Places tokens start good' (next cursor)) :
    Places tokens start good' (MonadState.get >>= next) :=
  fun cursor on isStart => rest cursor isStart cursor on isStart

theorem peek_bind {next : Token → Reader β}
    (rest : start ∈ tokens → Places tokens start good' (next start)) :
    Places tokens start good' (peek >>= next) := by
  intro cursor on isStart
  subst isStart
  exact rest on.mem cursor on rfl

theorem unexpected : Places tokens start good unexpected :=
  peek_bind fun member => fail (Token.pinned member)

theorem isAt (kind : TokenKind) :
    Places tokens start (fun _ stop => stop = start) (isAt kind) :=
  peek_bind fun _ => pure rfl

variable (row : Token.Row tokens)

include row

theorem advance (content : start.kind ≠ .eof) : Places tokens start
    (fun _ stop => Spread tokens start.span.lo [start.region] stop.span.lo) advance := by
  intro cursor on isStart
  subst isStart
  refine ⟨on.step, spread_one.mpr ⟨Nat.le_refl _, ?_, on.step_lo row content⟩⟩
  rw [Token.region, exact_mk]
  have member := Token.mem_written.mpr ⟨on.mem, content⟩
  exact ⟨Token.aligned member, row.filled _ member, nofun, spread_nil.mpr (Span.lo_le_hi _)⟩

theorem advance_any : Places tokens start
    (fun _ stop => Spread tokens start.span.lo [] stop.span.lo) Reader.advance := by
  intro cursor on isStart
  subst isStart
  exact ⟨on.step, spread_nil.mpr (on.step_le row)⟩

theorem expect_bind {kind : TokenKind} {next : Token → Reader β} (content : kind ≠ .eof)
    (rest : start ∈ tokens → ∀ mid, Spread tokens start.span.lo [start.region] mid.span.lo →
      Places tokens mid good' (next start)) :
    Places tokens start good' (expect kind >>= next) := by
  simp only [expect, bind_assoc]
  refine peek_bind fun member => ?_
  by_cases isKind : start.kind = kind
  · rw [if_pos isKind]
    intro cursor on isStart
    subst isStart
    have taken := advance row (isKind ▸ content) cursor on rfl
    exact rest member cursor.step.current taken.2 cursor.step taken.1 rfl
  · rw [if_neg isKind]
    exact fail (Token.pinned member)

theorem take_bind {kind : TokenKind} {yes no : Reader β} (content : kind ≠ .eof)
    (ifYes : ∀ mid, Spread tokens start.span.lo [] mid.span.lo → Places tokens mid good' yes)
    (ifNo : Places tokens start good' no) :
    Places tokens start good' (take kind >>= fun taken => if taken = true then yes else no) := by
  have unfolded : (take kind >>= fun taken => if taken = true then yes else no) =
      (peek >>= fun token => if token.kind = kind then Reader.advance >>= fun _ => yes else no) := by
    simp only [take, Reader.isAt, bind_assoc, pure_bind, decide_eq_true_eq]
    congr 1
    funext token
    split <;> simp
  rw [unfolded]
  refine peek_bind fun _ => ?_
  by_cases isKind : start.kind = kind
  · rw [if_pos isKind]
    refine (advance row (isKind ▸ content)).bind fun _ mid taken => ifYes mid ?_
    exact taken.skip
  · rw [if_neg isKind]
    exact ifNo

theorem ident : Lays tokens (fun name => [name.region]) ident := by
  intro start
  refine expect_bind row (by decide) fun member mid taken => ?_
  have learned : Places tokens mid (fun _ stop => stop = mid)
      (modify (Cursor.learn · start.text) : Reader Unit) := fun cursor on isMid => ⟨on, isMid⟩
  refine learned.bind fun _ stop isStop => pure ?_
  subst isStop
  obtain ⟨before, exact, after⟩ := spread_one.mp taken
  refine spread_one.mpr ⟨before, ?_, after⟩
  rw [Ident.region, exact_mk]
  refine ⟨exact.aligned, exact.lo_lt_hi, ?_, spread_nil.mpr start.span.lo_le_hi⟩
  rintro name ⟨⟩
  exact ⟨start, member, rfl, rfl⟩

theorem separated {item : Reader α} {regions : α → List Region} (isItem : Lays tokens regions item)
    (close : TokenKind) : ∀ (fuel : Nat) (items : Array α) (start : Token),
    Places tokens start (fun xs stop => ∃ more, xs = items.toList ++ more ∧
        Spread tokens start.span.lo (more.flatMap regions) stop.span.lo)
      (separated close item fuel items) := by
  intro fuel
  induction fuel with
  | zero => exact fun _ _ => unexpected
  | succ fuel ih =>
    intro items start
    rw [Reader.separated]
    refine (isAt close).bind fun _ mid isMid => ite ?_ ?_
    · subst isMid
      exact pure ⟨[], by simp, spread_nil.mpr (Nat.le_refl _)⟩
    subst isMid
    refine (isItem mid).bind fun a stop lies => ?_
    refine take_bind row (by decide) (fun later skipped => ?_) ?_
    · refine (ih (items.push a) later).mono ?_
      rintro xs final ⟨more, rfl, rest⟩
      exact ⟨a :: more, by simp, lies.append (skipped.append rest)⟩
    · refine (isAt close).bind fun _ later isStop => ite ?_ ?_
      · subst isStop
        exact pure ⟨[a], by simp, by simpa using lies⟩
      · subst isStop
        exact peek_bind fun member => fail (Token.pinned member)

theorem list {item : Reader α} {regions : α → List Region} (isItem : Lays tokens regions item)
    (close : TokenKind) (fuel : Nat) :
    Lays tokens (fun xs => xs.flatMap regions) (Reader.separated close item fuel #[]) := by
  intro start
  refine (separated row isItem close fuel #[] start).mono ?_
  rintro xs stop ⟨more, rfl, lies⟩
  simpa using lies

theorem list_one {item : Reader α} {region : α → Region}
    (isItem : Lays tokens (fun a => [region a]) item) (close : TokenKind) (fuel : Nat) :
    Lays tokens (fun xs => xs.map region) (Reader.separated close item fuel #[]) := by
  simpa only [List.map_eq_flatMap] using list row isItem close fuel

/-! ### The forms of the grammar -/

theorem typeRef : ∀ fuel : Nat, Lays tokens (fun type => [type.region]) (typeRef fuel)
  | 0, _ => unexpected
  | fuel + 1, start => by
    rw [Reader.typeRef]
    refine (ident row start).bind fun name mid isName => ?_
    refine take_bind row (by decide) (fun mid' skipped => ?_) (pure isName.around)
    refine (list_one row (typeRef fuel) .greater fuel mid').bind fun args close areArgs => ?_
    refine expect_bind row (by decide) fun _ stop closes => pure ?_
    simp only [TypeRef.region, TypeRef.regions_eq]
    exact isName.enclose row (skipped.append areArgs) closes
      ((List.sublist_append_left _ _).cons_cons _)

theorem binding (fuel : Nat) : Lays tokens Binding.regions (binding fuel) := by
  intro start
  refine (ident row start).bind fun name mid isName => ?_
  exact (typeRef row fuel mid).bind fun type stop isType => pure (isName.append isType)

theorem recordDecl (fuel : Nat) : Lays tokens (fun stmt => [stmt.region]) (recordDecl fuel) := by
  intro start
  refine expect_bind row (by decide) fun _ mid starts => ?_
  refine (ident row mid).bind fun name mid isName => ?_
  refine expect_bind row (by decide) fun _ mid opens => ?_
  refine (list row (binding row fuel) .rightBrace fuel mid).bind fun fields close areFields => ?_
  refine expect_bind row (by decide) fun _ stop closes => pure ?_
  simp only [Stmt.region]
  exact starts.enclose row (isName.append (opens.skip.append areFields)) closes
    ((List.sublist_append_left _ _).cons _)

theorem members : ∀ (fuel : Nat) (base : PExpr) (start : Token) (lo : Nat),
    Spread tokens lo [base.region] start.span.lo →
    Places tokens start (fun e stop => Spread tokens lo [e.region] stop.span.lo)
      (members fuel base)
  | 0, _, _, _, _ => unexpected
  | fuel + 1, base, start, lo, isBase => by
    rw [Reader.members]
    refine get_bind fun cursor isStart => ?_
    by_cases isMember : cursor.current.kind = .dot ∧ cursor.nextKind = .identifier
    · have content : start.kind ≠ .eof := by
        rw [← isStart, isMember.1]
        decide
      rw [if_pos isMember]
      refine (advance row content).bind fun _ mid dot => ?_
      refine (ident row mid).bind fun field stop isField => ?_
      refine members fuel _ stop lo ?_
      simpa using isBase.enclose row dot.skip isField (.refl _)
    · rw [if_neg isMember]
      exact pure isBase

theorem takeOperator (op : Operator) : Places tokens start
    (fun _ stop => Spread tokens start.span.lo [] stop.span.lo) (takeOperator op) := by
  refine (advance_any row).bind fun _ mid taken => ?_
  have second : Places tokens mid
      (fun _ stop => Spread tokens start.span.lo [] stop.span.lo)
      (Reader.advance >>= fun _ => Pure.pure ()) :=
    (advance_any row).bind fun _ stop taken' => pure (taken.append taken')
  cases op with
  | eq | ne | concat => exact second
  | _ => exact pure taken

omit row in
theorem operator? : Places tokens start (fun _ stop => stop = start) operator? :=
  get_bind fun _ _ => pure rfl

end Places

theorem spread_asBlock {e : PExpr} {lo hi : Nat} (spread : Spread tokens lo [e.region] hi) :
    Spread tokens lo [(asBlock e).region] hi := by
  have wrapped := spread.around
  rw [Expr.span_region] at wrapped
  cases e with
  | block body ty => exact spread
  | _ => exact wrapped

namespace Places

-- The induction is on the fuel. What each form reads lies between where it starts and where it stops.
mutual

theorem expr (row : Token.Row tokens) : ∀ fuel : Nat, Lays tokens (fun e => [e.region]) (Reader.expr fuel)
  | 0, _ => unexpected
  | fuel + 1, start => by
    rw [Reader.expr]
    refine (operand row fuel start).bind fun lhs mid isLhs => ?_
    exact operators row fuel lhs 0 mid _ isLhs

theorem operators (row : Token.Row tokens) : ∀ (fuel : Nat) (lhs : PExpr) (floor : Nat) (start : Token) (lo : Nat),
    Spread tokens lo [lhs.region] start.span.lo →
    Places tokens start (fun e stop => Spread tokens lo [e.region] stop.span.lo)
      (Reader.operators fuel lhs floor)
  | 0, _, _, _, _, _ => unexpected
  | fuel + 1, lhs, floor, start, lo, isLhs => by
    rw [Reader.operators]
    refine operator?.bind fun found mid isMid => ?_
    subst isMid
    cases found with
    | none => exact pure isLhs
    | some op =>
      refine ite (pure isLhs) ?_
      refine (takeOperator row op).bind fun _ mid' skipped => ?_
      refine (operand row fuel mid').bind fun first mid'' isFirst => ?_
      refine (operators row fuel first op.precedence mid'' _ isFirst).bind fun rhs stop isRhs => ?_
      refine operators row fuel _ floor stop lo ?_
      simpa using isLhs.enclose row skipped isRhs (.refl _)

theorem operand (row : Token.Row tokens) : ∀ fuel : Nat, Lays tokens (fun e => [e.region]) (Reader.operand fuel)
  | 0, _ => unexpected
  | fuel + 1, start => by
    rw [Reader.operand]
    have rest (base : PExpr) (mid : Token)
        (isBase : Spread tokens start.span.lo [base.region] mid.span.lo) :=
      members row fuel base mid start.span.lo isBase
    have leaf (content : start.kind ≠ .eof) (base : PExpr)
        (isBase : base.region = start.region) : Places tokens start
          (fun e stop => Spread tokens start.span.lo [e.region] stop.span.lo)
          (Reader.advance >>= fun _ => Pure.pure base >>= Reader.members fuel) :=
      (advance row content).bind fun _ mid taken => rest base mid (isBase ▸ taken)
    refine peek_bind fun member => ?_
    obtain ⟨kind, span, text⟩ := start
    cases kind with
    | number =>
      dsimp only
      cases Number.read? text with
      | none => exact (advance row (by nofun)).bind fun _ mid _ => fail (Token.pinned member)
      | some value => exact leaf (by nofun) _ rfl
    | string =>
      dsimp only
      cases Token.content? _ with
      | none => exact (advance row (by nofun)).bind fun _ mid _ => fail (Token.pinned member)
      | some value => exact leaf (by nofun) _ rfl
    | trueKw => exact leaf (by nofun) _ rfl
    | falseKw => exact leaf (by nofun) _ rfl
    | identifier => exact (named row fuel _).bind rest
    | leftParen =>
      refine (advance row (by nofun)).bind fun _ mid opens => ?_
      refine (expr row fuel mid).bind fun inner close isInner => ?_
      refine expect_bind row (by decide) fun _ stop closes => ?_
      have inside := opens.skip.append (isInner.append closes.skip)
      exact rest inner stop inside
    | leftBrace => exact (block row fuel _).bind fun body mid isBody => rest (.block body ()) mid isBody
    | ifKw => exact (conditional row fuel _).bind rest
    | foreachKw => exact (loop row fuel _).bind rest
    | leftBracket => exact (range row fuel _).bind rest
    | _ => exact unexpected

theorem named (row : Token.Row tokens) : ∀ fuel : Nat, Lays tokens (fun e => [e.region]) (Reader.named fuel)
  | 0, _ => unexpected
  | fuel + 1, start => by
    rw [Reader.named]
    refine (ident row start).bind fun name mid isName => ?_
    have arg := expr row fuel
    refine take_bind row (by decide) (fun mid' skipped => ?_)
      (take_bind row (by decide) (fun mid' skipped => ?_) (pure isName.around))
    · refine (list_one row arg .rightParen fuel mid').bind fun args close areArgs => ?_
      refine expect_bind row (by decide) fun _ stop closes => pure ?_
      simp only [Expr.region, Expr.regions_eq]
      exact isName.enclose row (skipped.append areArgs) closes
        ((List.sublist_append_left _ _).cons_cons _)
    · refine (list_one row arg .rightBrace fuel mid').bind fun args close areArgs => ?_
      refine expect_bind row (by decide) fun _ stop closes => pure ?_
      simp only [Expr.region, Expr.regions_eq]
      exact isName.enclose row (skipped.append areArgs) closes
        ((List.sublist_append_left _ _).cons_cons _)

theorem conditional (row : Token.Row tokens) : ∀ fuel : Nat, Lays tokens (fun e => [e.region]) (Reader.conditional fuel)
  | 0, _ => unexpected
  | fuel + 1, start => by
    rw [Reader.conditional]
    refine expect_bind row (by decide) fun _ mid starts => ?_
    refine (expr row fuel mid).bind fun cond mid isCond => ?_
    refine expect_bind row (by decide) fun _ mid thens => ?_
    refine (expr row fuel mid).bind fun yes mid isYes => ?_
    have isYes := spread_asBlock isYes
    refine take_bind row (by decide) (fun mid' skipped => ?_) (pure ?_)
    · refine (expr row fuel mid').bind fun no stop isNo => pure ?_
      have between := isCond.append (thens.skip.append (isYes.append skipped))
      simpa using starts.enclose row between (spread_asBlock isNo)
        (List.sublist_cons_self _ _)
    · simpa using starts.enclose row (isCond.append thens.skip) isYes
        (List.sublist_cons_self _ _)

theorem loop (row : Token.Row tokens) : ∀ fuel : Nat, Lays tokens (fun e => [e.region]) (Reader.loop fuel)
  | 0, _ => unexpected
  | fuel + 1, start => by
    rw [Reader.loop]
    refine expect_bind row (by decide) fun _ mid starts => ?_
    refine (ident row mid).bind fun element mid isElement => ?_
    refine (typeRef row fuel mid).bind fun elementType mid isType => ?_
    refine expect_bind row (by decide) fun _ mid ins => ?_
    refine (expr row fuel mid).bind fun source mid isSource => ?_
    refine expect_bind row (by decide) fun _ mid dos => ?_
    refine (expr row fuel mid).bind fun body stop isBody => pure ?_
    have between := isElement.append (isType.append (ins.skip.append (isSource.append dos.skip)))
    simpa using starts.enclose row between (spread_asBlock isBody)
      (List.sublist_cons_self _ _)

theorem range (row : Token.Row tokens) : ∀ fuel : Nat, Lays tokens (fun e => [e.region]) (Reader.range fuel)
  | 0, _ => unexpected
  | fuel + 1, start => by
    rw [Reader.range]
    refine expect_bind row (by decide) fun _ mid starts => ?_
    refine (expr row fuel mid).bind fun first mid isFirst => ?_
    refine expect_bind row (by decide) fun _ mid tos => ?_
    refine (expr row fuel mid).bind fun limit mid isLimit => ?_
    have before := isFirst.append (tos.skip.append isLimit)
    refine take_bind row (by decide) (fun mid' skipped => ?_) ?_
    · simp only [bind_map_left]
      refine (expr row fuel mid').bind fun step close isStep => ?_
      refine expect_bind row (by decide) fun _ stop closes => pure ?_
      simp only [Expr.region]
      exact starts.enclose row (before.append (skipped.append isStep)) closes
        ((List.sublist_append_left _ _).cons _)
    · refine expect_bind row (by decide) fun _ stop closes => pure ?_
      simp only [Expr.region]
      exact starts.enclose row before closes ((List.sublist_append_left _ _).cons _)

theorem block (row : Token.Row tokens) : ∀ fuel : Nat, Lays tokens (fun body => [body.region]) (Reader.block fuel)
  | 0, _ => unexpected
  | fuel + 1, start => by
    rw [Reader.block]
    refine expect_bind row (by decide) fun _ mid starts => ?_
    refine (stmtsUntilBrace row fuel #[] mid).bind fun stmts close areStmts => ?_
    obtain ⟨more, rfl, lies⟩ := areStmts
    refine expect_bind row (by decide) fun _ stop closes => pure ?_
    simp only [Block.region, Stmt.regions_eq]
    exact starts.enclose row lies closes ((List.sublist_append_left _ _).cons _)

theorem stmtsUntilBrace (row : Token.Row tokens) : ∀ (fuel : Nat) (stmts : Array PStmt) (start : Token),
    Places tokens start (fun found stop => ∃ more, found = stmts.toList ++ more ∧
        Spread tokens start.span.lo (more.map Stmt.region) stop.span.lo)
      (Reader.stmtsUntilBrace fuel stmts)
  | 0, _, _ => unexpected
  | fuel + 1, stmts, start => by
    rw [Reader.stmtsUntilBrace]
    refine (isAt .rightBrace).bind fun _ mid isMid => ite ?_ ?_
    · subst isMid
      exact pure ⟨[], by simp, spread_nil.mpr (Nat.le_refl _)⟩
    subst isMid
    refine (stmt row fuel mid).bind fun first mid' isFirst => ?_
    refine (stmtsUntilBrace row fuel (stmts.push first) mid').mono ?_
    rintro found stop ⟨more, rfl, lies⟩
    exact ⟨first :: more, by simp, isFirst.append lies⟩

theorem stmt (row : Token.Row tokens) : ∀ fuel : Nat, Lays tokens (fun stmt => [stmt.region]) (Reader.stmt fuel)
  | 0, _ => unexpected
  | fuel + 1, start => by
    rw [Reader.stmt]
    refine peek_bind fun _ => ?_
    split
    · exact function row fuel start
    · exact recordDecl row fuel start
    · exact letStmt row fuel start
    · exact (expr row fuel start).bind fun value stop isValue => pure isValue

theorem function (row : Token.Row tokens) : ∀ fuel : Nat, Lays tokens (fun stmt => [stmt.region]) (Reader.function fuel)
  | 0, _ => unexpected
  | fuel + 1, start => by
    rw [Reader.function]
    refine expect_bind row (by decide) fun _ mid starts => ?_
    refine (ident row mid).bind fun name mid isName => ?_
    refine expect_bind row (by decide) fun _ mid opens => ?_
    refine (list row (binding row fuel) .rightParen fuel mid).bind fun params mid areParams => ?_
    refine expect_bind row (by decide) fun _ mid closes => ?_
    refine expect_bind row (by decide) fun _ mid arrow => ?_
    refine (typeRef row fuel mid).bind fun returns mid isReturns => ?_
    refine (block row fuel mid).bind fun body stop isBody => pure ?_
    have between := isName.append (opens.skip.append (areParams.append
      (closes.skip.append (arrow.skip.append isReturns))))
    simpa using starts.enclose row between isBody (List.sublist_cons_self _ _)

theorem letStmt (row : Token.Row tokens) : ∀ fuel : Nat, Lays tokens (fun stmt => [stmt.region]) (Reader.letStmt fuel)
  | 0, _ => unexpected
  | fuel + 1, start => by
    rw [Reader.letStmt]
    refine expect_bind row (by decide) fun _ mid starts => ?_
    refine (ident row mid).bind fun name mid isName => ?_
    refine (typeRef row fuel mid).bind fun type mid isType => ?_
    refine expect_bind row (by decide) fun _ mid equals => ?_
    refine (expr row fuel mid).bind fun first mid isFirst => ?_
    refine ite (fail ?_) ?_
    · have aligned := (spread_one.mp isFirst).2.1.aligned
      rw [Expr.span_region] at aligned
      exact Or.inl aligned
    have node := starts.enclose row (isName.append (isType.append equals.skip)) isFirst
      (List.sublist_cons_self _ _)
    rw [Expr.span_region] at node
    refine (chain row fuel #[] _ mid _ _ node).bind fun found stop isFound => ?_
    obtain ⟨chained, span⟩ := found
    obtain ⟨more, rfl, lies⟩ := isFound
    refine pure ?_
    simpa using lies

theorem chain (row : Token.Row tokens) : ∀ (fuel : Nat) (bodies : Array PExpr) (span : Span) (start : Token) (lo : Nat)
    (parts : List Region), Spread tokens lo [⟨span, none, parts⟩] start.span.lo →
    Places tokens start (fun found stop => ∃ more, found.1 = bodies.toList ++ more ∧
        Spread tokens lo [⟨found.2, none, parts ++ more.map Expr.region⟩] stop.span.lo)
      (Reader.chain fuel bodies span)
  | 0, _, _, _, _, _, _ => unexpected
  | fuel + 1, bodies, span, start, lo, parts, node => by
    rw [Reader.chain]
    refine take_bind row (by decide) (fun mid skipped => ?_) (pure ⟨[], by simpa using node⟩)
    refine (expr row fuel mid).bind fun body stop isBody => ?_
    have longer := node.extend row (skipped.append isBody)
    rw [Expr.span_region] at longer
    refine (chain row fuel (bodies.push body) _ stop lo _ longer).mono ?_
    rintro found final ⟨more, isFound, lies⟩
    exact ⟨body :: more, by simpa using isFound, by simpa using lies⟩

end

theorem declarations (row : Token.Row tokens) : ∀ (fuel : Nat) (stmts : Array PStmt) (start : Token),
    Places tokens start (fun found stop => ∃ more, found = stmts.toList ++ more ∧
        Spread tokens start.span.lo (more.map Stmt.region) stop.span.lo)
      (Reader.declarations fuel stmts)
  | 0, _, _ => unexpected
  | fuel + 1, stmts, start => by
    rw [Reader.declarations]
    refine peek_bind fun member => ?_
    have more (first : PStmt) (mid : Token)
        (isFirst : Spread tokens start.span.lo [first.region] mid.span.lo) :
        Places tokens mid (fun found stop => ∃ more, found = stmts.toList ++ more ∧
            Spread tokens start.span.lo (more.map Stmt.region) stop.span.lo)
          (Reader.declarations fuel (stmts.push first)) := by
      refine (declarations row fuel (stmts.push first) mid).mono ?_
      rintro found stop ⟨more, rfl, lies⟩
      exact ⟨first :: more, by simp, isFirst.append lies⟩
    split
    · exact (function row fuel start).bind more
    · exact (recordDecl row fuel start).bind more
    · exact pure ⟨[], by simp, spread_nil.mpr (Nat.le_refl _)⟩
    · exact fail (Token.pinned member)

theorem module (row : Token.Row tokens) (fuel : Nat) :
    Lays tokens Module.regions (Module.mk <$> Reader.declarations fuel #[]) := by
  intro start
  refine Places.bind (declarations row fuel #[] start) fun stmts stop areStmts => pure ?_
  obtain ⟨more, rfl, lies⟩ := areStmts
  simpa [Module.regions] using lies

theorem expression (row : Token.Row tokens) (fuel : Nat) :
    Lays tokens (fun e => [e.region]) (Reader.expr fuel <* Reader.expect .eof) := by
  intro start
  simp only [seqLeft_eq_bind]
  refine (expr row fuel start).bind fun e mid isExpr => ?_
  have ending : Places tokens mid (fun _ stop => Spread tokens mid.span.lo [] stop.span.lo)
      (Reader.expect .eof) :=
    peek_bind fun member => ite (advance_any row) (fail (Token.pinned member))
  exact ending.bind fun _ stop skipped => pure (isExpr.append skipped)

end Places

end Reader

end LetChain
