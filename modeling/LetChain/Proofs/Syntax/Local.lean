import LetChain.Proofs.Syntax.Mirrored

/-! A reader sees no further than one token, or two where a mark of two may begin. So what it takes
stays the same when the tokens behind the place where it stops are replaced by others. -/

namespace LetChain

def TokenKind.isDouble (kind : TokenKind) : Bool := [.dot, .equals, .bang].contains kind

/-- A reader that stops before these tokens sees no difference between them. -/
inductive Token.Alike : List Token → List Token → Prop
  | one {token : Token} {rest rest' : List Token} :
      token.kind.isDouble = false → Alike (token :: rest) (token :: rest')
  | two {token next : Token} {rest rest' : List Token} :
      Alike (token :: next :: rest) (token :: next :: rest')

/-- What cannot be told apart cannot be told apart behind the same tokens either. -/
def Token.Stable (alike : List Token → List Token → Prop) : Prop :=
  ∀ before tail tail', alike tail tail' → alike (before ++ tail) (before ++ tail')

theorem Token.Alike.stable : Stable Alike
  | [], _, _, alike => alike
  | [_], _, _, alike => by cases alike <;> exact .two
  | _ :: _ :: _, _, _, _ => .two

namespace Cursor

variable {cursor cursor' : Cursor}

theorem eq_of_tokens (tokens : cursor.tokens = cursor'.tokens) (names : cursor.names = cursor'.names) :
    cursor = cursor' := by
  obtain ⟨current, ahead, names⟩ := cursor
  obtain ⟨current', ahead', names'⟩ := cursor'
  obtain ⟨rfl, rfl⟩ := List.cons.inj tokens
  cases names
  rfl

theorem exists_tokens (before : List Token) (cursor : Cursor) (names : NameTable) :
    ∃ start : Cursor, start.tokens = before ++ cursor.tokens ∧ start.names = names := by
  cases before with
  | nil => exact ⟨⟨cursor.current, cursor.ahead, names⟩, rfl, rfl⟩
  | cons first rest => exact ⟨⟨first, rest ++ cursor.tokens, names⟩, rfl, rfl⟩

theorem Ended.tokens_step (ended : cursor.Ended) (content : cursor.current.kind ≠ .eof) :
    cursor.tokens = cursor.current :: cursor.step.tokens := by
  obtain ⟨next, rest, ahead, -⟩ := ended.exists_ahead content
  obtain ⟨current, ahead, names⟩ := cursor
  subst ahead
  rfl

theorem step_eq {token : Token} (tokens : cursor.tokens = token :: cursor'.tokens)
    (names : cursor.names = cursor'.names) : cursor.step = cursor' := by
  obtain ⟨current, ahead, names⟩ := cursor
  obtain rfl : ahead = cursor'.tokens := (List.cons.inj tokens).2
  exact eq_of_tokens rfl names

theorem current_of_alike (alike : Token.Alike cursor.tokens cursor'.tokens) :
    cursor'.current = cursor.current := by
  obtain ⟨current, ahead, names⟩ := cursor
  obtain ⟨current', ahead', names'⟩ := cursor'
  cases alike <;> rfl

theorem nextKind_of_alike (alike : Token.Alike cursor.tokens cursor'.tokens)
    (double : cursor.current.kind.isDouble = true) : cursor'.nextKind = cursor.nextKind := by
  obtain ⟨current, ahead, names⟩ := cursor
  obtain ⟨current', ahead', names'⟩ := cursor'
  cases alike with
  | one single => simp [single] at double
  | two => rfl

end Cursor

namespace Reader

variable {α β : Type}

theorem take_eq (kind : TokenKind) (cursor : Cursor) :
    take kind cursor = if cursor.current.kind = kind then .ok true cursor.step
      else .ok false cursor := by
  change (if decide (cursor.current.kind = kind) = true then
    (advance >>= fun _ => pure true : Reader Bool) else pure false) cursor = _
  by_cases isKind : cursor.current.kind = kind
  · rw [if_pos (decide_eq_true isKind), if_pos isKind]
    rfl
  · rw [if_neg (by simpa using isKind), if_neg isKind]
    rfl

/-- The run from `start` to `stop` takes some tokens. It goes the same way before any tokens that are
like those before which it stops. -/
def LocalRun (alike : List Token → List Token → Prop) (here : Cursor → Prop) (reader : Reader α)
    (start : Cursor) (a : α) (stop : Cursor) : Prop :=
  stop.Ended ∧ ∃ taken, start.tokens = taken ++ stop.tokens ∧
    ∀ start' stop', here start' → start'.tokens = taken ++ stop'.tokens →
      start'.names = start.names → stop'.names = stop.names →
      alike stop.tokens stop'.tokens → reader start' = .ok a stop'

def LocalWhere (alike : List Token → List Token → Prop) (here : Cursor → Prop) (reader : Reader α) :
    Prop :=
  ∀ start a stop, start.Ended → here start → reader start = .ok a stop →
    LocalRun alike here reader start a stop

abbrev Local (alike : List Token → List Token → Prop) (reader : Reader α) : Prop :=
  LocalWhere alike (fun _ => True) reader

section Rules

variable {alike : List Token → List Token → Prop} {here : Cursor → Prop} {token : Token}
  {reader : Reader α} {next : α → Reader β}

theorem Local.at (isLocal : Local alike reader) : LocalWhere alike here reader := by
  intro start a stop ended _ ran
  obtain ⟨ended', taken, split, again⟩ := isLocal start a stop ended trivial ran
  exact ⟨ended', taken, split, fun start' stop' _ => again start' stop' trivial⟩

theorem LocalRun.step {start : Cursor} {a : α} (ended : start.Ended)
    (content : start.current.kind ≠ .eof)
    (takes : ∀ start' : Cursor, start'.current = start.current →
      reader start' = .ok a start'.step) : LocalRun alike here reader start a start.step := by
  refine ⟨ended.step, [start.current], ended.tokens_step content, ?_⟩
  intro start' stop' _ tokens names names' _
  rw [takes start' (List.cons.inj tokens).1,
    Cursor.step_eq tokens (names.trans (start.names_step.symm.trans names'.symm))]

theorem LocalRun.stay {start : Cursor} {a : α} (ended : start.Ended)
    (stays : ∀ start' : Cursor, start'.names = start.names → alike start.tokens start'.tokens →
      reader start' = .ok a start') : LocalRun alike here reader start a start := by
  refine ⟨ended, [], rfl, fun start' stop' _ tokens names names' same => ?_⟩
  obtain rfl := Cursor.eq_of_tokens tokens (names.trans names'.symm)
  exact stays start' names same

namespace LocalWhere

theorem bind_where {near : List Token → List Token → Prop} (there : Cursor → Prop)
    (covers : ∀ before tail tail', alike tail tail' → near (before ++ tail) (before ++ tail'))
    (reaches : ∀ start a stop, here start → reader start = .ok a stop → there stop)
    (first : LocalWhere near here reader) (rest : ∀ a, LocalWhere alike there (next a)) :
    LocalWhere alike here (reader >>= next) := by
  intro start b stop ended isHere ran
  obtain ⟨a, between, ranFirst, ranRest⟩ := bind_eq_ok.mp ran
  obtain ⟨ended', taken, split, again⟩ := first start a between ended isHere ranFirst
  have isThere := reaches start a between isHere ranFirst
  obtain ⟨ended'', more, split', again'⟩ := rest a between b stop ended' isThere ranRest
  refine ⟨ended'', taken ++ more, by rw [split, split', List.append_assoc], ?_⟩
  intro start' stop' isHere' tokens names names' same
  obtain ⟨between', tokens', names''⟩ := Cursor.exists_tokens more stop' between.names
  rw [List.append_assoc, ← tokens'] at tokens
  have near : near between.tokens between'.tokens := by
    rw [split', tokens']
    exact covers more _ _ same
  have ranFirst' := again start' between' isHere' tokens names names'' near
  have isThere' := reaches start' a between' isHere' ranFirst'
  exact bind_eq_ok.mpr ⟨a, between', ranFirst',
    again' between' stop' isThere' tokens' names'' names' same⟩

theorem bind (stable : Token.Stable alike) (first : LocalWhere alike here reader)
    (rest : ∀ a, Local alike (next a)) : LocalWhere alike here (reader >>= next) :=
  bind_where _ stable (fun _ _ _ _ _ => trivial) first rest

theorem blind_bind (first : LocalWhere (fun _ _ => True) here reader)
    (rest : ∀ a, Local alike (next a)) : LocalWhere alike here (reader >>= next) :=
  bind_where _ (fun _ _ _ _ => trivial) (fun _ _ _ _ _ => trivial) first rest

theorem peek_bind {next : Token → Reader β}
    (rest : LocalWhere alike (·.current = token) (next token)) :
    LocalWhere alike (·.current = token) (peek >>= next) := by
  intro start b stop ended isHere ran
  change next start.current start = _ at ran
  rw [isHere] at ran
  obtain ⟨ended', taken, split, again⟩ := rest start b stop ended isHere ran
  refine ⟨ended', taken, split, fun start' stop' isHere' tokens names names' same => ?_⟩
  change next start'.current start' = _
  rw [isHere']
  exact again start' stop' isHere' tokens names names' same

theorem advance (content : ∀ cursor, here cursor → cursor.current.kind ≠ .eof) :
    LocalWhere alike here advance := by
  intro start a stop ended isHere ran
  cases ran
  refine .step ended (content start isHere) fun start' current => ?_
  rw [← current]
  rfl

end LocalWhere

namespace Local

theorem pure (a : α) : Local alike (Pure.pure a) := by
  intro start b stop ended _ ran
  cases ran
  exact .stay ended fun _ _ _ => rfl

theorem fail {span : Span} {error : ParseError} : Local alike (fail span error : Reader α) := by
  intro start b stop _ _ ran
  cases ran

theorem unexpected : Local alike (unexpected : Reader α) := by
  intro start b stop _ _ ran
  cases ran

theorem ite {cond : Prop} [Decidable cond] {yes no : Reader α} (ifYes : Local alike yes)
    (ifNo : Local alike no) : Local alike (if cond then yes else no) := by
  split
  · exact ifYes
  · exact ifNo

theorem expect {kind : TokenKind} (content : kind ≠ .eof) : Local alike (expect kind) := by
  intro start a stop ended _ ran
  rw [expect_eq] at ran
  split at ran
  case isTrue isKind =>
    cases ran
    refine .step ended (isKind ▸ content) fun start' current => ?_
    rw [expect_eq, current, if_pos isKind]
  case isFalse => cases ran

theorem take {kind : TokenKind} (content : kind ≠ .eof)
    (agrees : ∀ cursor cursor' : Cursor, alike cursor.tokens cursor'.tokens →
      cursor.current.kind ≠ kind → cursor'.current.kind ≠ kind) : Local alike (take kind) := by
  intro start a stop ended _ ran
  rw [take_eq] at ran
  split at ran
  case isTrue isKind =>
    cases ran
    refine .step ended (isKind ▸ content) fun start' current => ?_
    rw [take_eq, current, if_pos isKind]
  case isFalse other =>
    cases ran
    refine .stay ended fun start' _ same => ?_
    rw [take_eq, if_neg (agrees _ _ same other)]

theorem learn (text : String) : Local alike (modify (Cursor.learn · text) : Reader Unit) := by
  intro start a stop ended _ ran
  cases ran
  refine ⟨ended, [], rfl, fun start' stop' _ tokens names names' _ => ?_⟩
  change EStateM.Result.ok () (start'.learn text) = _
  have learned : (start'.learn text).names = stop'.names := by
    rw [names']
    exact congrArg (NameTable.insert · text) names
  have same : start'.learn text = stop' := Cursor.eq_of_tokens tokens learned
  rw [same]

theorem ident : Local alike ident := by
  refine (expect (by decide)).blind_bind fun token => ?_
  exact (learn token.text).blind_bind fun _ => pure _

end Local

end Rules

section Ahead

variable {alike : List Token → List Token → Prop} {reader : Reader α} {next : α → Reader β}

theorem Local.bind (stable : Token.Stable alike) (first : Local alike reader)
    (rest : ∀ a, Local alike (next a)) : Local alike (reader >>= next) :=
  LocalWhere.bind stable first rest

theorem Local.get_bind {κ : Type} (stable : Token.Stable alike) (key : Cursor → κ)
    (next : κ → Reader β)
    (agrees : ∀ cursor cursor' : Cursor, alike cursor.tokens cursor'.tokens →
      key cursor' = key cursor)
    (rest : ∀ k, LocalWhere alike (fun cursor => key cursor = k) (next k)) :
    Local alike (get >>= fun cursor => next (key cursor)) := by
  intro start b stop ended _ ran
  obtain ⟨ended', taken, split, again⟩ := rest (key start) start b stop ended rfl ran
  refine ⟨ended', taken, split, fun start' stop' _ tokens names names' same => ?_⟩
  have sameKey : key start' = key start := by
    refine agrees start start' ?_
    rw [split, tokens]
    exact stable taken _ _ same
  change next (key start') start' = _
  rw [sameKey]
  exact again start' stop' sameKey tokens names names' same

def memberAt (cursor : Cursor) : Bool :=
  decide (cursor.current.kind = .dot ∧ cursor.nextKind = .identifier)

theorem Local.members (stable : Token.Stable alike)
    (agrees : ∀ cursor cursor' : Cursor, alike cursor.tokens cursor'.tokens →
      memberAt cursor' = memberAt cursor) :
    ∀ (fuel : Nat) (base : PExpr), Local alike (members fuel base)
  | 0, _ => Local.unexpected
  | fuel + 1, base => by
    have isLocal := Local.get_bind stable memberAt (fun isMember => if isMember = true then do
        let _ ← Reader.advance
        let field ← Reader.ident
        Reader.members fuel (.member base field () (base.span.join field.span) ())
      else return base) agrees
    rw [Reader.members]
    simp only [memberAt, decide_eq_true_eq] at isLocal
    refine isLocal fun isMember => ?_
    cases isMember with
    | false => exact (Local.pure base).at
    | true =>
      refine (LocalWhere.advance fun _ isMember => ?_).blind_bind fun _ => ?_
      · simp [(of_decide_eq_true isMember).1]
      · exact Local.ident.blind_bind fun field => Local.members stable agrees fuel _

end Ahead

/-! ### The forms of the grammar -/

abbrev Sees (reader : Reader α) : Prop := Local Token.Alike reader

namespace Sees

variable {reader : Reader α} {next : α → Reader β}

theorem of_each (isLocal : ∀ token, LocalWhere Token.Alike (·.current = token) reader) :
    Sees reader := by
  intro start a stop ended _ ran
  obtain ⟨ended', taken, split, again⟩ := isLocal start.current start a stop ended rfl ran
  refine ⟨ended', taken, split, fun start' stop' _ tokens names names' same => ?_⟩
  have alike : Token.Alike start.tokens start'.tokens := by
    rw [split, tokens]
    exact Token.Alike.stable taken _ _ same
  exact again start' stop' (Cursor.current_of_alike alike) tokens names names' same

theorem bind (first : Sees reader) (rest : ∀ a, Sees (next a)) : Sees (reader >>= next) :=
  Local.bind Token.Alike.stable first rest

theorem take (kind : TokenKind) (content : kind ≠ .eof) : Sees (Reader.take kind) :=
  Local.take content fun _ _ same other => by rwa [Cursor.current_of_alike same]

theorem isAt (kind : TokenKind) : Sees (Reader.isAt kind) :=
  of_each fun _ => .peek_bind (Local.pure _).at

theorem separated {item : Reader α} (close : TokenKind) (isItem : Sees item) :
    ∀ (fuel : Nat) (items : Array α), Sees (separated close item fuel items)
  | 0, _ => Local.unexpected
  | fuel + 1, items => by
    rw [Reader.separated]
    refine (isAt close).bind fun found => .ite (.pure _) (isItem.bind fun first => ?_)
    refine (take .comma (by decide)).bind fun taken => .ite (separated close isItem fuel _) ?_
    refine (isAt close).bind fun found => .ite (.pure _) ?_
    exact of_each fun _ => .peek_bind Local.fail.at

theorem typeRef : ∀ fuel : Nat, Sees (typeRef fuel)
  | 0 => Local.unexpected
  | fuel + 1 => by
    rw [Reader.typeRef]
    refine Sees.bind Local.ident fun name => (take .less (by decide)).bind fun taken => ?_
    refine .ite ?_ (.pure _)
    refine (separated .greater (typeRef fuel) fuel #[]).bind fun args => ?_
    exact Sees.bind (Local.expect (by decide)) fun _ => .pure _

theorem binding (fuel : Nat) : Sees (binding fuel) :=
  Sees.bind Local.ident fun _ => (typeRef fuel).bind fun _ => .pure _

theorem recordDecl (fuel : Nat) : Sees (recordDecl fuel) := by
  refine Sees.bind (Local.expect (by decide)) fun start => Sees.bind Local.ident fun name => ?_
  refine Sees.bind (Local.expect (by decide)) fun _ => ?_
  refine (separated .rightBrace (binding fuel) fuel #[]).bind fun fields => ?_
  exact Sees.bind (Local.expect (by decide)) fun _ => .pure _

theorem memberAt_alike (cursor cursor' : Cursor)
    (alike : Token.Alike cursor.tokens cursor'.tokens) : memberAt cursor' = memberAt cursor := by
  rw [memberAt, memberAt, decide_eq_decide, Cursor.current_of_alike alike]
  refine and_congr_right fun isDot => ?_
  rw [Cursor.nextKind_of_alike alike (by rw [isDot]; rfl)]

theorem members (fuel : Nat) (base : PExpr) : Sees (members fuel base) :=
  Local.members Token.Alike.stable memberAt_alike fuel base

def operatorAt (cursor : Cursor) : Option Operator :=
  match Reader.operator? cursor with
  | .ok found _ => found
  | .error _ _ => none

theorem operator?_alike {cursor cursor' : Cursor} {found : Option Operator}
    (alike : Token.Alike cursor.tokens cursor'.tokens)
    (ran : Reader.operator? cursor = .ok found cursor) :
    Reader.operator? cursor' = .ok found cursor' := by
  cases ran
  change EStateM.Result.ok _ _ = _
  rw [Cursor.current_of_alike alike]
  by_cases double : cursor.current.kind.isDouble = true
  · rw [Cursor.nextKind_of_alike alike double]
  · congr 1
    generalize cursor.current.kind = kind at double ⊢
    cases kind with
    | dot | equals | bang => exact absurd rfl double
    | _ => rfl

theorem operatorAt_alike (cursor cursor' : Cursor)
    (alike : Token.Alike cursor.tokens cursor'.tokens) : operatorAt cursor' = operatorAt cursor := by
  rw [operatorAt, operator?_alike alike rfl]
  rfl

theorem operatorAt_eof {cursor : Cursor} {op : Operator} (found : operatorAt cursor = some op) :
    cursor.current.kind ≠ .eof := by
  intro isEnd
  have none : Reader.operator? cursor = .ok none cursor := by
    change EStateM.Result.ok _ _ = _
    rw [isEnd]
  rw [operatorAt, none] at found
  cases found

theorem operatorAt_double {cursor : Cursor} {op : Operator} (found : operatorAt cursor = some op)
    (double : op = .eq ∨ op = .ne ∨ op = .concat) : cursor.nextKind ≠ .eof := by
  intro isEnd
  have read : Reader.operator? cursor = .ok (operatorAt cursor) cursor := rfl
  rw [found] at read
  injection read with read
  rw [isEnd] at read
  split at read
  all_goals rcases double with rfl | rfl | rfl <;> simp_all

theorem takeOperator (op : Operator) :
    LocalWhere Token.Alike (fun cursor => operatorAt cursor = some op) (takeOperator op) := by
  have first : LocalWhere (fun _ _ => True) (fun cursor => operatorAt cursor = some op) Reader.advance :=
    LocalWhere.advance fun _ found => operatorAt_eof found
  have two (double : op = .eq ∨ op = .ne ∨ op = .concat) :
      LocalWhere Token.Alike (fun cursor => operatorAt cursor = some op)
        (Reader.advance >>= fun _ => Reader.advance >>= fun _ => Pure.pure ()) := by
    refine .bind_where (·.current.kind ≠ .eof) (fun _ _ _ _ => trivial) ?_ first fun _ => ?_
    · intro start a stop found ran
      cases ran
      have next := operatorAt_double found double
      obtain ⟨current, ahead, names⟩ := start
      cases ahead with
      | nil => exact absurd rfl next
      | cons token rest => exact next
    · exact (LocalWhere.advance fun _ content => content).blind_bind fun _ => .pure _
  cases op with
  | eq | ne | concat => exact two (by simp)
  | _ => exact first.blind_bind fun _ => .pure _

theorem operator?_bind {next : Option Operator → Reader β} (ifNone : Sees (next none))
    (ifSome : ∀ op, LocalWhere Token.Alike (fun cursor => operatorAt cursor = some op)
      (next (some op))) : Sees (operator? >>= next) := by
  refine Local.get_bind Token.Alike.stable operatorAt next operatorAt_alike fun found => ?_
  cases found with
  | none => exact ifNone.at
  | some op => exact ifSome op

mutual

theorem expr : ∀ fuel : Nat, Sees (Reader.expr fuel)
  | 0 => Local.unexpected
  | fuel + 1 => by
    rw [Reader.expr]
    exact (operand fuel).bind fun lhs => operators fuel lhs 0

theorem operators : ∀ (fuel : Nat) (lhs : PExpr) (floor : Nat),
    Sees (Reader.operators fuel lhs floor)
  | 0, _, _ => Local.unexpected
  | fuel + 1, lhs, floor => by
    rw [Reader.operators]
    refine operator?_bind (.pure _) fun op => ?_
    by_cases looser : op.precedence ≤ floor
    · simp only [if_pos looser]
      exact (Local.pure lhs).at
    · simp only [if_neg looser]
      refine LocalWhere.bind Token.Alike.stable (takeOperator op) fun _ => ?_
      refine (operand fuel).bind fun first => ?_
      exact (operators fuel first op.precedence).bind fun rhs => operators fuel _ floor

theorem operand : ∀ fuel : Nat, Sees (Reader.operand fuel)
  | 0 => Local.unexpected
  | fuel + 1 => of_each fun token => by
    rw [Reader.operand]
    refine .peek_bind ?_
    obtain ⟨kind, span, text⟩ := token
    have taken (content : kind ≠ .eof) {next : Token → Reader PExpr} (rest : ∀ a, Sees (next a)) :
        LocalWhere Token.Alike (·.current = ⟨kind, span, text⟩) (Reader.advance >>= next) :=
      (LocalWhere.advance fun _ isHere => by simpa [isHere] using content).blind_bind rest
    have leaf (base : PExpr) : Sees (Pure.pure base >>= Reader.members fuel) := members fuel base
    cases kind with
    | number =>
      refine taken (by nofun) fun _ => ?_
      dsimp only
      cases Number.read? text with
      | none => exact Local.fail
      | some value => exact leaf _
    | string =>
      refine taken (by nofun) fun _ => ?_
      dsimp only
      cases Token.content? _ with
      | none => exact Local.fail
      | some value => exact leaf _
    | trueKw | falseKw => exact taken (by nofun) fun _ => leaf _
    | identifier => exact ((named fuel).bind (members fuel)).at
    | leftParen =>
      refine taken (by nofun) fun _ => (expr fuel).bind fun inner => ?_
      exact Sees.bind (Local.expect (by decide)) fun _ => leaf inner
    | leftBrace => exact ((block fuel).bind fun body => leaf _).at
    | ifKw => exact ((conditional fuel).bind (members fuel)).at
    | foreachKw => exact ((loop fuel).bind (members fuel)).at
    | leftBracket => exact ((range fuel).bind (members fuel)).at
    | _ => exact (Sees.bind Local.unexpected (members fuel)).at

theorem named : ∀ fuel : Nat, Sees (Reader.named fuel)
  | 0 => Local.unexpected
  | fuel + 1 => by
    rw [Reader.named]
    have args (close : TokenKind) := separated close (expr fuel) fuel #[]
    refine Sees.bind Local.ident fun name => (take .leftParen (by decide)).bind fun _ => ?_
    refine .ite ((args .rightParen).bind fun args => ?_) ?_
    · exact Sees.bind (Local.expect (by decide)) fun _ => .pure _
    · refine (take .leftBrace (by decide)).bind fun _ => .ite ?_ (.pure _)
      refine (args .rightBrace).bind fun args => ?_
      exact Sees.bind (Local.expect (by decide)) fun _ => .pure _

theorem conditional : ∀ fuel : Nat, Sees (Reader.conditional fuel)
  | 0 => Local.unexpected
  | fuel + 1 => by
    rw [Reader.conditional]
    refine Sees.bind (Local.expect (by decide)) fun start => (expr fuel).bind fun cond => ?_
    refine Sees.bind (Local.expect (by decide)) fun _ => (expr fuel).bind fun yes => ?_
    refine (take .elseKw (by decide)).bind fun _ => .ite ?_ (.pure _)
    exact (expr fuel).bind fun no => .pure _

theorem loop : ∀ fuel : Nat, Sees (Reader.loop fuel)
  | 0 => Local.unexpected
  | fuel + 1 => by
    rw [Reader.loop]
    refine Sees.bind (Local.expect (by decide)) fun start => Sees.bind Local.ident fun element => ?_
    refine (typeRef fuel).bind fun type => Sees.bind (Local.expect (by decide)) fun _ => ?_
    refine (expr fuel).bind fun source => Sees.bind (Local.expect (by decide)) fun _ => ?_
    exact (expr fuel).bind fun body => .pure _

theorem range : ∀ fuel : Nat, Sees (Reader.range fuel)
  | 0 => Local.unexpected
  | fuel + 1 => by
    rw [Reader.range]
    refine Sees.bind (Local.expect (by decide)) fun start => (expr fuel).bind fun first => ?_
    refine Sees.bind (Local.expect (by decide)) fun _ => (expr fuel).bind fun limit => ?_
    have close (step : Option PExpr) : Sees (do
        let close ← Reader.expect .rightBracket
        return Expr.range first limit step (start.span.join close.span) ()) :=
      Sees.bind (Local.expect (by decide)) fun _ => .pure _
    refine (take .stepKw (by decide)).bind fun _ => .ite ?_ (close none)
    simp only [bind_map_left]
    exact (expr fuel).bind fun step => close (some step)

theorem block : ∀ fuel : Nat, Sees (Reader.block fuel)
  | 0 => Local.unexpected
  | fuel + 1 => by
    rw [Reader.block]
    refine Sees.bind (Local.expect (by decide)) fun start => ?_
    refine (stmtsUntilBrace fuel #[]).bind fun stmts => ?_
    exact Sees.bind (Local.expect (by decide)) fun _ => .pure _

theorem stmtsUntilBrace : ∀ (fuel : Nat) (stmts : Array PStmt),
    Sees (Reader.stmtsUntilBrace fuel stmts)
  | 0, _ => Local.unexpected
  | fuel + 1, stmts => by
    rw [Reader.stmtsUntilBrace]
    refine (isAt _).bind fun _ => .ite (.pure _) ?_
    exact (stmt fuel).bind fun first => stmtsUntilBrace fuel (stmts.push first)

theorem stmt : ∀ fuel : Nat, Sees (Reader.stmt fuel)
  | 0 => Local.unexpected
  | fuel + 1 => of_each fun token => by
    rw [Reader.stmt]
    refine .peek_bind ?_
    split
    · exact (function fuel).at
    · exact (recordDecl fuel).at
    · exact (letStmt fuel).at
    · exact ((expr fuel).bind fun value => .pure _).at

theorem function : ∀ fuel : Nat, Sees (Reader.function fuel)
  | 0 => Local.unexpected
  | fuel + 1 => by
    rw [Reader.function]
    refine Sees.bind (Local.expect (by decide)) fun start => Sees.bind Local.ident fun name => ?_
    refine Sees.bind (Local.expect (by decide)) fun _ => ?_
    refine (separated .rightParen (binding fuel) fuel #[]).bind fun params => ?_
    refine Sees.bind (Local.expect (by decide)) fun _ => ?_
    refine Sees.bind (Local.expect (by decide)) fun _ => (typeRef fuel).bind fun returns => ?_
    exact (block fuel).bind fun body => .pure _

theorem letStmt : ∀ fuel : Nat, Sees (Reader.letStmt fuel)
  | 0 => Local.unexpected
  | fuel + 1 => by
    rw [Reader.letStmt]
    refine Sees.bind (Local.expect (by decide)) fun start => Sees.bind Local.ident fun name => ?_
    refine (typeRef fuel).bind fun type => Sees.bind (Local.expect (by decide)) fun _ => ?_
    refine (expr fuel).bind fun first => .ite .fail ?_
    exact (chain fuel #[] _).bind fun chained => .pure _

theorem chain : ∀ (fuel : Nat) (bodies : Array PExpr) (span : Span),
    Sees (Reader.chain fuel bodies span)
  | 0, _, _ => Local.unexpected
  | fuel + 1, bodies, span => by
    rw [Reader.chain]
    refine (take .whereKw (by decide)).bind fun _ => .ite ?_ (.pure _)
    exact (expr fuel).bind fun body => chain fuel _ _

end

end Sees

/-! ### Operands -/

end Reader

def Token.Stops : List Token → Prop
  | [] => True
  | token :: rest => token.kind ≠ .identifier ∧ token.kind ≠ .leftParen ∧ token.kind ≠ .leftBrace ∧
    (token.kind = .dot → ∀ next ∈ rest.head?, next.kind ≠ .identifier)

def Token.Parted (tail tail' : List Token) : Prop := Alike tail tail' ∨ Stops tail ∧ Stops tail'

theorem Token.Stops.behind {token : Token} (double : token.kind.isDouble = true) :
    ∀ {tail : List Token}, Stops tail → Stops (token :: tail) := by
  intro tail stops
  have other (kind : TokenKind) (single : kind.isDouble = false) : token.kind ≠ kind := by
    intro isKind
    simp [isKind, single] at double
  refine ⟨other _ rfl, other _ rfl, other _ rfl, fun _ next isNext => ?_⟩
  cases tail with
  | nil => simp at isNext
  | cons first rest =>
    obtain rfl : first = next := by simpa using isNext
    exact stops.1

theorem Token.Parted.stable : Stable Parted := by
  intro before tail tail' parted
  rcases parted with alike | ⟨stops, stops'⟩
  · exact .inl (Alike.stable before _ _ alike)
  · match before with
    | [] => exact .inr ⟨stops, stops'⟩
    | [token] =>
      by_cases double : token.kind.isDouble = true
      · exact .inr ⟨stops.behind double, stops'.behind double⟩
      · exact .inl (.one (by simpa using double))
    | _ :: _ :: _ => exact .inl .two

namespace Reader

variable {α β : Type} {alike : List Token → List Token → Prop}

theorem memberAt_of_stops {cursor : Cursor} (stops : Token.Stops cursor.tokens) :
    memberAt cursor = false := by
  obtain ⟨current, ahead, names⟩ := cursor
  refine decide_eq_false fun ⟨isDot, isName⟩ => ?_
  cases ahead with
  | nil => simp [Cursor.nextKind] at isName
  | cons next rest => exact stops.2.2.2 isDot next rfl isName

theorem memberAt_parted (cursor cursor' : Cursor)
    (parted : Token.Parted cursor.tokens cursor'.tokens) : memberAt cursor' = memberAt cursor := by
  rcases parted with alike | ⟨stops, stops'⟩
  · exact Sees.memberAt_alike cursor cursor' alike
  · rw [memberAt_of_stops stops, memberAt_of_stops stops']

theorem take_parted {kind : TokenKind} (opens : kind = .leftParen ∨ kind = .leftBrace) :
    Local Token.Parted (take kind) := by
  refine Local.take (by rcases opens with rfl | rfl <;> decide) fun cursor cursor' parted other => ?_
  rcases parted with alike | ⟨_, stops'⟩
  · rwa [Cursor.current_of_alike alike]
  · rcases opens with rfl | rfl
    · exact stops'.2.1
    · exact stops'.2.2.1

theorem Local.close_bind {close : TokenKind} {reader : Reader α} {next : α → Token → Reader β}
    (single : close.isDouble = false) (content : close ≠ .eof) (inside : Sees reader)
    (rest : ∀ a token, Local alike (next a token)) :
    Local alike (reader >>= fun a => Reader.expect close >>= next a) := by
  intro start b stop ended _ ran
  obtain ⟨a, between, ranInside, ranRest⟩ := bind_eq_ok.mp ran
  obtain ⟨mark, later, ranMark, ranLater⟩ := bind_eq_ok.mp ranRest
  rw [expect_eq] at ranMark
  split at ranMark
  case isFalse => cases ranMark
  case isTrue isClose =>
    cases ranMark
    obtain ⟨ended', taken, split, again⟩ := inside start a between ended trivial ranInside
    have mark := ended'.tokens_step (isClose ▸ content)
    obtain ⟨ended'', more, split', again'⟩ :=
      rest a between.current between.step b stop ended'.step trivial ranLater
    refine ⟨ended'', taken ++ between.current :: more, by simp [split, mark, split'], ?_⟩
    intro start' stop' _ tokens names names' same
    obtain ⟨later', tokens', later'Names⟩ := Cursor.exists_tokens more stop' between.names
    obtain ⟨between', tokens'', names''⟩ :=
      Cursor.exists_tokens [between.current] later' between.names
    have current : between'.current = between.current := (List.cons.inj tokens'').1
    have step : between'.step = later' := Cursor.step_eq tokens'' (names''.trans later'Names.symm)
    refine bind_eq_ok.mpr ⟨a, between', ?_, bind_eq_ok.mpr ⟨between.current, later', ?_, ?_⟩⟩
    · refine again start' between' trivial ?_ names names'' ?_
      · simp [tokens, tokens'', tokens']
      · rw [mark, tokens'']
        exact .one (isClose ▸ single)
    · rw [expect_eq, current, if_pos isClose, step]
    · exact again' later' stop' trivial tokens' (later'Names.trans between.names_step.symm) names'
        same

theorem named_parted : ∀ fuel : Nat, Local Token.Parted (named fuel)
  | 0 => Local.unexpected
  | fuel + 1 => by
    rw [Reader.named]
    have args (close : TokenKind) := Sees.separated close (Sees.expr fuel) fuel #[]
    refine Local.ident.blind_bind fun name => ?_
    refine (take_parted (.inl rfl)).bind Token.Parted.stable fun _ => .ite ?_ ?_
    · exact Local.close_bind rfl (by decide) (args .rightParen) fun _ _ => .pure _
    · refine (take_parted (.inr rfl)).bind Token.Parted.stable fun _ => .ite ?_ (.pure _)
      exact Local.close_bind rfl (by decide) (args .rightBrace) fun _ _ => .pure _

theorem block_local : ∀ fuel : Nat, Local alike (block fuel)
  | 0 => Local.unexpected
  | fuel + 1 => by
    rw [Reader.block]
    refine (Local.expect (by decide)).blind_bind fun start => ?_
    exact Local.close_bind rfl (by decide) (Sees.stmtsUntilBrace fuel #[]) fun _ _ => .pure _

def rangeParts (fuel : Nat) : Reader (Token × PExpr × PExpr × Option PExpr) := do
  let start ← expect .leftBracket
  let first ← expr fuel
  let _ ← expect .toKw
  let limit ← expr fuel
  let step ← if ← take .stepKw then some <$> expr fuel else pure none
  return (start, first, limit, step)

theorem range_succ (fuel : Nat) :
    range (fuel + 1) = rangeParts fuel >>= fun (start, first, limit, step) => do
      let close ← expect .rightBracket
      return .range first limit step (start.span.join close.span) () := by
  simp only [Reader.range, rangeParts, bind_assoc, pure_bind, bind_map_left]
  refine bind_congr fun start => bind_congr fun first => bind_congr fun _ => bind_congr fun limit => ?_
  refine bind_congr fun found => ?_
  split <;> simp

theorem range_local : ∀ fuel : Nat, Local alike (range fuel)
  | 0 => Local.unexpected
  | fuel + 1 => by
    have parts : Sees (rangeParts fuel) := by
      refine Sees.bind (Local.expect (by decide)) fun start => (Sees.expr fuel).bind fun first => ?_
      refine Sees.bind (Local.expect (by decide)) fun _ => (Sees.expr fuel).bind fun limit => ?_
      refine (Sees.take .stepKw (by decide)).bind fun _ => .ite ?_ (.pure _)
      exact Sees.bind ((Sees.expr fuel).bind fun _ => .pure _) fun _ => .pure _
    rw [range_succ]
    exact Local.close_bind rfl (by decide) parts fun _ _ => .pure _

theorem operand_parted (fuel : Nat) {token : Token}
    (closed : token.kind ≠ .ifKw ∧ token.kind ≠ .foreachKw) :
    LocalWhere Token.Parted (·.current = token) (operand fuel) := by
  cases fuel with
  | zero => exact Local.unexpected.at
  | succ fuel =>
    rw [Reader.operand]
    refine .peek_bind ?_
    obtain ⟨kind, span, text⟩ := token
    have members := Local.members Token.Parted.stable memberAt_parted fuel
    have taken (content : kind ≠ .eof) {next : Token → Reader PExpr}
        (rest : ∀ a, Local Token.Parted (next a)) :
        LocalWhere Token.Parted (·.current = ⟨kind, span, text⟩) (Reader.advance >>= next) :=
      (LocalWhere.advance fun _ isHere => by simpa [isHere] using content).blind_bind rest
    have leaf (base : PExpr) : Local Token.Parted (Pure.pure base >>= Reader.members fuel) :=
      members base
    cases kind with
    | number =>
      refine taken (by nofun) fun _ => ?_
      dsimp only
      cases Number.read? text with
      | none => exact Local.fail
      | some value => exact leaf _
    | string =>
      refine taken (by nofun) fun _ => ?_
      dsimp only
      cases Token.content? _ with
      | none => exact Local.fail
      | some value => exact leaf _
    | trueKw | falseKw => exact taken (by nofun) fun _ => leaf _
    | identifier => exact ((named_parted fuel).bind Token.Parted.stable members).at
    | leftParen =>
      refine taken (by nofun) fun _ => ?_
      exact Local.close_bind rfl (by decide) (Sees.expr fuel) fun inner _ => leaf inner
    | leftBrace => exact ((block_local fuel).bind Token.Parted.stable fun body => leaf _).at
    | ifKw => exact absurd rfl closed.1
    | foreachKw => exact absurd rfl closed.2
    | leftBracket => exact ((range_local fuel).bind Token.Parted.stable members).at
    | _ => exact (Local.unexpected.bind Token.Parted.stable members).at

end Reader

end LetChain
