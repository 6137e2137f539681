import LetChain.Proofs.Syntax.Rendered
import LetChain.Proofs.Token.Spelled

/-! Whatever is read can be written: the names of a tree are words of the text that are no keywords,
and its texts stood between quotes. The name that a value, a call or a construction begins with stands
where the expression begins. -/

namespace LetChain

theorem Token.Cuts.sorted {source before : String} {cs : List Char} {tokens : List Token}
    (cuts : Cuts source before cs tokens) :
    (∀ token ∈ tokens, before.utf8ByteSize ≤ token.span.lo) ∧
      tokens.Pairwise (·.span.lo ≤ ·.span.lo) := by
  induction cuts with
  | last heads isEnd => simp [heads.lo]
  | cons heads more cuts ih =>
    rw [String.utf8ByteSize_append] at ih
    have later := fun token member => Nat.le_trans (Nat.le_add_right _ _) (ih.1 token member)
    refine ⟨List.forall_mem_cons.mpr ⟨heads.lo.ge, later⟩, List.pairwise_cons.mpr ⟨?_, ih.2⟩⟩
    rw [heads.lo]
    exact later

/-! ### Readers -/

/-- The tokens that are still to be read stand from `start` on, in order, and are spelled as they
should be. -/
structure Cursor.Spelled (start : Nat) (cursor : Cursor) : Prop where
  each : ∀ token ∈ cursor.current :: cursor.ahead, token.Spelled
  above : ∀ token ∈ cursor.current :: cursor.ahead, start ≤ token.span.lo
  sorted : (cursor.current :: cursor.ahead).Pairwise (·.span.lo ≤ ·.span.lo)

namespace Cursor

variable {start : Nat} {cursor : Cursor}

theorem Spelled.lower {start' : Nat} (spelled : cursor.Spelled start) (below : start' ≤ start) :
    cursor.Spelled start' :=
  ⟨spelled.each, fun token member => below.trans (spelled.above token member), spelled.sorted⟩

theorem Spelled.step (spelled : cursor.Spelled start) :
    cursor.step.Spelled cursor.current.span.lo := by
  obtain ⟨current, ahead, names⟩ := cursor
  cases ahead with
  | nil => exact ⟨spelled.each, by simp [Cursor.step], spelled.sorted⟩
  | cons token rest =>
    obtain ⟨above, sorted⟩ := List.pairwise_cons.mp spelled.sorted
    exact ⟨fun other member => spelled.each other (List.mem_cons_of_mem _ member), above, sorted⟩

theorem ofTokens_spelled (source : String) (names : NameTable) :
    (Cursor.ofTokens (Token.scan source) names).Spelled 0 := by
  unfold ofTokens
  split
  case h_1 =>
    refine ⟨fun token member => ?_, by simp, by simp⟩
    obtain rfl := List.mem_singleton.mp member
    exact ⟨by rintro ⟨⟩, by rintro ⟨⟩, by rintro ⟨⟩⟩
  case h_2 first rest found =>
    refine ⟨fun token member => ?_, by simp, ?_⟩
    · exact Token.scan_spelled (List.mem_filter.mp (found ▸ member)).1
    · change (first :: rest).Pairwise _
      rw [← found]
      exact (Token.scan_cuts source).sorted.2.sublist List.filter_sublist

end Cursor

theorem TypeRef.allWritable_iff {types : List TypeRef} :
    TypeRef.AllWritable types ↔ ∀ type ∈ types, type.Writable := by
  induction types with
  | nil => simp [AllWritable]
  | cons first rest ih => simp [AllWritable, ih]

def Ident.Begins (name : Ident) (span : Span) : Prop :=
  name.span = .ofBounds span.lo (span.lo + name.text.utf8ByteSize)

mutual

def Expr.Anchored : Expr .parsed → Prop
  | .number .. | .string .. | .bool .. => True
  | .named name _ span _ => name.Begins span
  | .binary _ lhs rhs _ _ => lhs.Anchored ∧ rhs.Anchored
  | .range first limit none _ _ => first.Anchored ∧ limit.Anchored
  | .range first limit (some step) _ _ => first.Anchored ∧ limit.Anchored ∧ step.Anchored
  | .call name args _ span _ | .construct name args _ span _ =>
    name.Begins span ∧ Expr.AllAnchored args
  | .member base _ _ _ _ => base.Anchored
  | .ifElse cond yes no _ _ => cond.Anchored ∧ yes.Anchored ∧ no.Anchored
  | .ifOnly cond yes _ _ => cond.Anchored ∧ yes.Anchored
  | .foreach _ _ source body _ _ _ => source.Anchored ∧ body.Anchored
  | .block body _ => body.Anchored

def Expr.AllAnchored : List (Expr .parsed) → Prop
  | [] => True
  | first :: rest => first.Anchored ∧ Expr.AllAnchored rest

def Block.Anchored : Block .parsed → Prop
  | ⟨stmts, _, _⟩ => Stmt.AllAnchored stmts

def Stmt.Anchored : Stmt .parsed → Prop
  | .letIn _ _ first chained _ _ => first.Anchored ∧ Expr.AllAnchored chained
  | .func _ _ _ body _ _ => body.Anchored
  | .record .. => True
  | .expr value => value.Anchored

def Stmt.AllAnchored : List (Stmt .parsed) → Prop
  | [] => True
  | first :: rest => first.Anchored ∧ Stmt.AllAnchored rest

end

section Lists

variable {number : Float → Prop}

theorem Expr.allWritable_iff {exprs : List (Expr .parsed)} :
    Expr.AllWritable number exprs ↔ ∀ e ∈ exprs, e.Writable number := by
  induction exprs with
  | nil => simp [AllWritable]
  | cons first rest ih => simp [AllWritable, ih]

theorem Stmt.allWritable_iff {stmts : List (Stmt .parsed)} :
    Stmt.AllWritable number stmts ↔ ∀ stmt ∈ stmts, stmt.Writable number := by
  induction stmts with
  | nil => simp [AllWritable]
  | cons first rest ih => simp [AllWritable, ih]

theorem Expr.allAnchored_iff {exprs : List (Expr .parsed)} :
    Expr.AllAnchored exprs ↔ ∀ e ∈ exprs, e.Anchored := by
  induction exprs with
  | nil => simp [AllAnchored]
  | cons first rest ih => simp [AllAnchored, ih]

theorem Stmt.allAnchored_iff {stmts : List (Stmt .parsed)} :
    Stmt.AllAnchored stmts ↔ ∀ stmt ∈ stmts, stmt.Anchored := by
  induction stmts with
  | nil => simp [AllAnchored]
  | cons first rest ih => simp [AllAnchored, ih]

end Lists

namespace Reader

variable {α β : Type} {start : Nat}

/-- From spelled tokens the reader gives only what is good, and leaves spelled tokens. -/
def Spells (start : Nat) (reader : Reader α) (good : α → Prop) : Prop :=
  ∀ cursor a cursor', cursor.Spelled start → reader cursor = .ok a cursor' →
    good a ∧ cursor'.Spelled start

namespace Spells

variable {reader : Reader α} {good : α → Prop} {good' : β → Prop}

theorem pure {a : α} (isGood : good a) : Spells start (Pure.pure a) good := by
  intro cursor a' cursor' spelled ran
  cases ran
  exact ⟨isGood, spelled⟩

theorem fail {span : Span} {error : ParseError} : Spells start (fail span error : Reader α) good := by
  intro cursor a cursor' _ ran
  change EStateM.Result.error _ _ = EStateM.Result.ok a cursor' at ran
  cases ran

theorem get : Spells start (MonadState.get : Reader Cursor) (Cursor.Spelled start) := by
  intro cursor a cursor' spelled ran
  cases ran
  exact ⟨spelled, spelled⟩

theorem bind {next : α → Reader β} (first : Spells start reader good)
    (rest : ∀ a, good a → Spells start (next a) good') : Spells start (reader >>= next) good' := by
  intro cursor b cursor' spelled ran
  obtain ⟨a, between, read, ran⟩ := bind_eq_ok.mp ran
  obtain ⟨isGood, spelled⟩ := first cursor a between spelled read
  exact rest a isGood between b cursor' spelled ran

theorem ite {cond : Prop} [Decidable cond] {yes no : Reader α} (ifYes : cond → Spells start yes good)
    (ifNo : ¬cond → Spells start no good) : Spells start (if cond then yes else no) good := by
  split
  case isTrue holds => exact ifYes holds
  case isFalse fails => exact ifNo fails

theorem peek : Spells start peek Token.Spelled :=
  get.bind fun _ spelled => pure (spelled.each _ List.mem_cons_self)

theorem unexpected : Spells start (unexpected : Reader α) good := peek.bind fun _ _ => fail

theorem advance : Spells start advance fun _ => True := by
  intro cursor token cursor' spelled ran
  cases ran
  exact ⟨trivial, spelled.step.lower (spelled.above _ List.mem_cons_self)⟩

theorem isAt (kind : TokenKind) : Spells start (isAt kind) fun _ => True :=
  peek.bind fun _ _ => pure trivial

theorem take (kind : TokenKind) : Spells start (take kind) fun _ => True :=
  (isAt kind).bind fun _ _ =>
    ite (fun _ => advance.bind fun _ _ => pure trivial) fun _ => pure trivial

theorem expect_bind {kind : TokenKind} {next : Token → Reader β}
    (rest : ∀ token, token.Spelled → token.kind = kind → start ≤ token.span.lo →
      Spells token.span.lo (next token) good') : Spells start (expect kind >>= next) good' := by
  intro cursor b cursor' spelled ran
  obtain ⟨token, between, read, ran⟩ := bind_eq_ok.mp ran
  have here := spelled.each _ List.mem_cons_self
  have above := spelled.above _ List.mem_cons_self
  rw [expect_eq] at read
  split at read
  case isTrue isKind =>
    cases read
    obtain ⟨isGood, spelled⟩ := rest _ here isKind above _ b cursor' spelled.step ran
    exact ⟨isGood, spelled.lower above⟩
  case isFalse => cases read

theorem expect (kind : TokenKind) : Spells start (expect kind) fun token => start ≤ token.span.lo := by
  have expected : Spells start (Reader.expect kind >>= Pure.pure) fun token => start ≤ token.span.lo :=
    expect_bind fun _ _ _ above => pure above
  rwa [bind_pure] at expected

theorem ident_bind {next : Ident → Reader β} (rest : ∀ name, Text.isName name.text = true →
    name.Begins name.span → Spells name.span.lo (next name) good') :
    Spells start (ident >>= next) good' := by
  simp only [ident, bind_assoc, pure_bind]
  refine expect_bind fun token spelled isName _ => ?_
  have learned : Spells token.span.lo (modify (Cursor.learn · token.text) : Reader Unit)
      fun _ => True := by
    intro cursor _ cursor' spelled ran
    cases ran
    exact ⟨trivial, spelled.each, spelled.above, spelled.sorted⟩
  exact learned.bind fun _ _ => rest ⟨token.text, token.span⟩ (spelled.name isName)
    (spelled.span isName)

theorem ident : Spells start ident fun name => Text.isName name.text = true := by
  have named : Spells start (Reader.ident >>= Pure.pure) fun name => Text.isName name.text = true :=
    ident_bind fun _ isName _ => pure isName
  rwa [bind_pure] at named

theorem operator? : Spells start operator? fun _ => True := get.bind fun _ _ => pure trivial

theorem takeOperator (op : Operator) : Spells start (takeOperator op) fun _ => True := by
  refine advance.bind fun _ _ => ?_
  cases op with
  | eq | ne | concat => exact advance.bind fun _ _ => pure trivial
  | _ => exact pure trivial

theorem mem_push {items : Array α} {item : α} (all : ∀ a ∈ items, good a) (isGood : good item) :
    ∀ a ∈ items.push item, good a := by
  intro a member
  rcases Array.mem_push.mp member with older | rfl
  · exact all a older
  · exact isGood

theorem mem_toList {items : Array α} (all : ∀ a ∈ items, good a) : ∀ a ∈ items.toList, good a :=
  fun a member => all a (Array.mem_def.mpr member)

theorem separated {item : Reader α} (close : TokenKind) (spells : Spells start item good) :
    ∀ (fuel : Nat) (items : Array α), (∀ a ∈ items, good a) →
      Spells start (separated close item fuel items) fun read => ∀ a ∈ read, good a
  | 0, _, _ => unexpected
  | fuel + 1, items, all => by
    rw [Reader.separated]
    refine (isAt close).bind fun _ _ => ite (fun _ => pure (mem_toList all)) fun _ => ?_
    refine spells.bind fun read isGood => (take .comma).bind fun _ _ => ite (fun _ => ?_) fun _ => ?_
    · exact separated close spells fuel _ (mem_push all isGood)
    · refine (isAt close).bind fun _ _ => ite (fun _ => ?_) fun _ => peek.bind fun _ _ => fail
      exact pure (mem_toList (mem_push all isGood))

theorem separated_nil {item : Reader α} (close : TokenKind) (spells : Spells start item good) (fuel : Nat) :
    Spells start (Reader.separated close item fuel #[]) fun read => ∀ a ∈ read, good a :=
  separated close spells fuel #[] (by simp)

theorem typeRef (fuel : Nat) : Spells start (typeRef fuel) TypeRef.Writable := by
  induction fuel with
  | zero => exact unexpected
  | succ fuel ih =>
    rw [Reader.typeRef]
    refine ident.bind fun name isName => (take .less).bind fun _ _ => ite (fun _ => ?_) fun _ => ?_
    · refine (separated_nil .greater ih fuel).bind fun args areTypes => ?_
      exact (expect _).bind fun _ _ => pure ⟨isName, TypeRef.allWritable_iff.mpr areTypes⟩
    · exact pure ⟨isName, trivial⟩

theorem binding (fuel : Nat) : Spells start (binding fuel) Binding.Writable :=
  ident.bind fun _ isName => (typeRef fuel).bind fun _ isType => pure ⟨isName, isType⟩

abbrev anyNumber (_ : Float) : Prop := True

abbrev ReadExpr (e : PExpr) : Prop := e.Writable anyNumber ∧ e.Anchored

abbrev ReadBlock (body : PBlock) : Prop := body.Writable anyNumber ∧ body.Anchored

abbrev ReadStmt (stmt : PStmt) : Prop := stmt.Writable anyNumber ∧ stmt.Anchored

theorem recordDecl (fuel : Nat) : Spells start (recordDecl fuel) ReadStmt := by
  refine (expect _).bind fun _ _ => ident.bind fun _ isName => (expect _).bind fun _ _ => ?_
  refine (separated_nil _ (binding fuel) fuel).bind fun _ areFields => ?_
  exact (expect _).bind fun _ _ => pure ⟨⟨isName, areFields⟩, trivial⟩

theorem members : ∀ (fuel : Nat) (base : PExpr), ReadExpr base →
    Spells start (members fuel base) ReadExpr
  | 0, _, _ => unexpected
  | fuel + 1, base, isBase => by
    rw [Reader.members]
    refine get.bind fun cursor _ => ite (fun _ => ?_) fun _ => pure isBase
    refine advance.bind fun _ _ => ident.bind fun _ isField => members fuel _ ?_
    exact ⟨⟨isBase.1, isField⟩, isBase.2⟩

theorem read_asBlock {body : PExpr} (isBody : ReadExpr body) : ReadBlock (asBlock body) := by
  cases body with
  | block => exact isBody
  | _ => exact ⟨⟨isBody.1, trivial⟩, isBody.2, trivial⟩

theorem read_args {args : List PExpr} (areArgs : ∀ e ∈ args, ReadExpr e) :
    Expr.AllWritable anyNumber args ∧ Expr.AllAnchored args :=
  ⟨Expr.allWritable_iff.mpr fun e member => (areArgs e member).1,
    Expr.allAnchored_iff.mpr fun e member => (areArgs e member).2⟩

theorem read_stmts {stmts : List PStmt} (areStmts : ∀ stmt ∈ stmts, ReadStmt stmt) :
    Stmt.AllWritable anyNumber stmts ∧ Stmt.AllAnchored stmts :=
  ⟨Stmt.allWritable_iff.mpr fun stmt member => (areStmts stmt member).1,
    Stmt.allAnchored_iff.mpr fun stmt member => (areStmts stmt member).2⟩

theorem begins_join {name : Ident} {span : Span} (begins : name.Begins name.span)
    (after : name.span.lo ≤ span.lo) : name.Begins (name.span.join span) := by
  have same : (name.span.join span).lo = name.span.lo := Nat.min_eq_left after
  rw [Ident.Begins, same]
  exact begins

-- One case per form of the grammar; the induction is on the fuel, which each form passes on.
mutual

theorem expr : ∀ (fuel : Nat) {start : Nat}, Spells start (Reader.expr fuel) ReadExpr
  | 0 => unexpected
  | fuel + 1 => by
    rw [Reader.expr]
    exact (operand fuel).bind fun lhs isLhs => operators fuel lhs 0 isLhs

theorem operators : ∀ (fuel : Nat) (lhs : PExpr) (floor : Nat), ReadExpr lhs → ∀ {start : Nat},
    Spells start (Reader.operators fuel lhs floor) ReadExpr
  | 0, _, _, _ => unexpected
  | fuel + 1, lhs, floor, isLhs => by
    rw [Reader.operators]
    refine operator?.bind fun found _ => ?_
    cases found with
    | none => exact pure isLhs
    | some op =>
      refine ite (fun _ => pure isLhs) fun _ => (takeOperator op).bind fun _ _ => ?_
      refine (operand fuel).bind fun first isFirst => ?_
      refine (operators fuel first op.precedence isFirst).bind fun rhs isRhs => ?_
      refine operators fuel _ floor ?_
      exact ⟨⟨isLhs.1, isRhs.1⟩, isLhs.2, isRhs.2⟩

theorem operand : ∀ (fuel : Nat) {start : Nat}, Spells start (Reader.operand fuel) ReadExpr
  | 0 => unexpected
  | fuel + 1 => by
    rw [Reader.operand]
    refine peek.bind fun token spelled => ?_
    dsimp only
    split
    · refine advance.bind fun _ _ => ?_
      split
      · exact members fuel _ ⟨trivial, trivial⟩
      · exact fail.bind (members fuel)
    · rename_i isString
      refine advance.bind fun _ _ => ?_
      split
      · rename_i value found
        exact members fuel _ ⟨spelled.string isString value found, trivial⟩
      · exact fail.bind (members fuel)
    · exact advance.bind fun _ _ => members fuel _ ⟨trivial, trivial⟩
    · exact advance.bind fun _ _ => members fuel _ ⟨trivial, trivial⟩
    · exact (named fuel).bind (members fuel)
    · refine advance.bind fun _ _ => (expr fuel).bind fun _ isInner => (expect _).bind fun _ _ => ?_
      exact members fuel _ isInner
    · exact (block fuel).bind fun _ isBody => members fuel _ isBody
    · exact (conditional fuel).bind (members fuel)
    · exact (loop fuel).bind (members fuel)
    · exact (range fuel).bind (members fuel)
    · exact unexpected.bind (members fuel)

theorem named : ∀ (fuel : Nat) {start : Nat}, Spells start (Reader.named fuel) ReadExpr
  | 0 => unexpected
  | fuel + 1 => by
    rw [Reader.named]
    refine ident_bind fun name isName begins => (take .leftParen).bind fun _ _ =>
      ite (fun _ => ?_) fun _ => (take .leftBrace).bind fun _ _ => ite (fun _ => ?_) fun _ => ?_
    · refine (separated_nil _ (expr fuel) fuel).bind fun _ areArgs => (expect _).bind fun _ after => ?_
      obtain ⟨writable, anchored⟩ := read_args areArgs
      exact pure ⟨⟨isName, writable⟩, begins_join begins after, anchored⟩
    · refine (separated_nil _ (expr fuel) fuel).bind fun _ areArgs => (expect _).bind fun _ after => ?_
      obtain ⟨writable, anchored⟩ := read_args areArgs
      exact pure ⟨⟨isName, writable⟩, begins_join begins after, anchored⟩
    · exact pure ⟨isName, begins⟩

theorem conditional : ∀ (fuel : Nat) {start : Nat}, Spells start (Reader.conditional fuel) ReadExpr
  | 0 => unexpected
  | fuel + 1 => by
    rw [Reader.conditional]
    refine (expect _).bind fun _ _ => (expr fuel).bind fun _ isCond => (expect _).bind fun _ _ => ?_
    refine (expr fuel).bind fun _ isYes => (take _).bind fun _ _ => ?_
    have isYes := read_asBlock isYes
    refine ite (fun _ => (expr fuel).bind fun _ isNo => ?_) fun _ => ?_
    · have isNo := read_asBlock isNo
      exact pure ⟨⟨isCond.1, isYes.1, isNo.1⟩, isCond.2, isYes.2, isNo.2⟩
    · exact pure ⟨⟨isCond.1, isYes.1⟩, isCond.2, isYes.2⟩

theorem loop : ∀ (fuel : Nat) {start : Nat}, Spells start (Reader.loop fuel) ReadExpr
  | 0 => unexpected
  | fuel + 1 => by
    rw [Reader.loop]
    refine (expect _).bind fun _ _ => ident.bind fun _ isName => ?_
    refine (typeRef fuel).bind fun _ isType => (expect _).bind fun _ _ => ?_
    refine (expr fuel).bind fun _ isSource => (expect _).bind fun _ _ => ?_
    refine (expr fuel).bind fun _ isBody => ?_
    have isBody := read_asBlock isBody
    exact pure ⟨⟨isName, isType, isSource.1, isBody.1⟩, isSource.2, isBody.2⟩

theorem range : ∀ (fuel : Nat) {start : Nat}, Spells start (Reader.range fuel) ReadExpr
  | 0 => unexpected
  | fuel + 1 => by
    rw [Reader.range]
    have given {start : Nat} : Spells start (some <$> Reader.expr fuel)
        fun step? => ∃ step, step? = some step ∧ ReadExpr step :=
      (expr fuel).bind fun step isStep => pure ⟨step, rfl, isStep⟩
    refine (expect _).bind fun _ _ => (expr fuel).bind fun _ isFirst => (expect _).bind fun _ _ => ?_
    refine (expr fuel).bind fun _ isLimit => (take _).bind fun _ _ => ite (fun _ => ?_) fun _ => ?_
    · refine given.bind fun step? isGiven => (expect _).bind fun _ _ => pure ?_
      obtain ⟨step, rfl, isStep⟩ := isGiven
      exact ⟨⟨isFirst.1, isLimit.1, isStep.1⟩, isFirst.2, isLimit.2, isStep.2⟩
    · exact (expect _).bind fun _ _ => pure ⟨⟨isFirst.1, isLimit.1⟩, isFirst.2, isLimit.2⟩

theorem block : ∀ (fuel : Nat) {start : Nat}, Spells start (Reader.block fuel) ReadBlock
  | 0 => unexpected
  | fuel + 1 => by
    rw [Reader.block]
    refine (expect _).bind fun _ _ => (stmtsUntilBrace fuel #[] (by simp)).bind fun _ areStmts => ?_
    exact (expect _).bind fun _ _ => pure (read_stmts areStmts)

theorem stmtsUntilBrace : ∀ (fuel : Nat) (stmts : Array PStmt), (∀ stmt ∈ stmts, ReadStmt stmt) →
    ∀ {start : Nat}, Spells start (Reader.stmtsUntilBrace fuel stmts)
      fun read => ∀ stmt ∈ read, ReadStmt stmt
  | 0, _, _ => unexpected
  | fuel + 1, stmts, all => by
    rw [Reader.stmtsUntilBrace]
    refine (isAt _).bind fun _ _ => ite (fun _ => pure (mem_toList all)) fun _ => ?_
    exact (stmt fuel).bind fun _ isStmt => stmtsUntilBrace fuel _ (mem_push all isStmt)

theorem stmt : ∀ (fuel : Nat) {start : Nat}, Spells start (Reader.stmt fuel) ReadStmt
  | 0 => unexpected
  | fuel + 1 => by
    rw [Reader.stmt]
    refine peek.bind fun token _ => ?_
    split
    · exact function fuel
    · exact recordDecl fuel
    · exact letStmt fuel
    · exact (expr fuel).bind fun _ isValue => pure isValue

theorem function : ∀ (fuel : Nat) {start : Nat}, Spells start (Reader.function fuel) ReadStmt
  | 0 => unexpected
  | fuel + 1 => by
    rw [Reader.function]
    refine (expect _).bind fun _ _ => ident.bind fun _ isName => (expect _).bind fun _ _ => ?_
    refine (separated_nil _ (binding fuel) fuel).bind fun _ areParams => ?_
    refine (expect _).bind fun _ _ => (expect _).bind fun _ _ => ?_
    refine (typeRef fuel).bind fun _ isType => (block fuel).bind fun _ isBody => ?_
    exact pure ⟨⟨isName, areParams, isType, isBody.1⟩, isBody.2⟩

theorem letStmt : ∀ (fuel : Nat) {start : Nat}, Spells start (Reader.letStmt fuel) ReadStmt
  | 0 => unexpected
  | fuel + 1 => by
    rw [Reader.letStmt]
    refine (expect _).bind fun _ _ => ident.bind fun _ isName => ?_
    refine (typeRef fuel).bind fun _ isType => (expect _).bind fun _ _ => ?_
    refine (expr fuel).bind fun first isFirst => ite (fun _ => fail) fun assigns => ?_
    refine (chain fuel #[] _ (by simp)).bind fun read areBodies => ?_
    obtain ⟨writable, anchored⟩ := read_args areBodies
    exact pure ⟨⟨isName, isType, isFirst.1, Bool.not_eq_true _ ▸ assigns, writable⟩,
      isFirst.2, anchored⟩

theorem chain : ∀ (fuel : Nat) (bodies : Array PExpr) (span : Span),
    (∀ body ∈ bodies, ReadExpr body) → ∀ {start : Nat},
    Spells start (Reader.chain fuel bodies span) fun read => ∀ body ∈ read.1, ReadExpr body
  | 0, _, _, _ => unexpected
  | fuel + 1, bodies, span, all => by
    rw [Reader.chain]
    refine (take _).bind fun _ _ => ite (fun _ => ?_) fun _ => pure (mem_toList all)
    exact (expr fuel).bind fun _ isBody => chain fuel _ _ (mem_push all isBody)

end

theorem declarations : ∀ (fuel : Nat) (stmts : Array PStmt), (∀ stmt ∈ stmts, ReadStmt stmt) →
    Spells start (Reader.declarations fuel stmts) fun read => ∀ stmt ∈ read, ReadStmt stmt
  | 0, _, _ => unexpected
  | fuel + 1, stmts, all => by
    rw [Reader.declarations]
    refine peek.bind fun token _ => ?_
    split
    · exact (function fuel).bind fun _ isStmt => declarations fuel _ (mem_push all isStmt)
    · exact (recordDecl fuel).bind fun _ isStmt => declarations fuel _ (mem_push all isStmt)
    · exact pure (mem_toList all)
    · exact fail

end Spells

end Reader

section Parsed

variable {source : String} {names : NameTable} {m : Module .parsed}
  (ran : (parseModule source names).1 = .ok m)

include ran

theorem parseModule_read :
    Stmt.AllWritable Reader.Spells.anyNumber m.stmts ∧ Stmt.AllAnchored m.stmts := by
  simp only [parseModule, parseWith] at ran
  split at ran
  · cases ran
  · split at ran
    case h_1 read =>
      cases ran
      have spells : Reader.Spells 0 (Module.mk <$> Reader.declarations _ #[]) fun m =>
          Stmt.AllWritable Reader.Spells.anyNumber m.stmts ∧ Stmt.AllAnchored m.stmts :=
        (Reader.Spells.declarations (8 * (Token.scan source).length + 16) #[] (by simp)).bind
          fun _ areStmts => .pure (Reader.Spells.read_stmts areStmts)
      exact (spells _ _ _ (Cursor.ofTokens_spelled source _) read).1
    case h_2 => cases ran

theorem parseModule_writable : m.Writable Reader.Spells.anyNumber :=
  ⟨(parseModule_read ran).1, parseModule_isDeclaration ran⟩

end Parsed

end LetChain
