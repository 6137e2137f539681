import LetChain.Proofs.Syntax.Reading
import LetChain.Proofs.Syntax.Regions
import LetChain.Proofs.Token.Tiling

/-! Two runs of the grammar over tokens that differ only in where they stand and in the words that
are names. Both take the same tokens, learn the same names and give trees that differ only in that way,
or fail for the same reason. Neither the names known before nor the fuel matter, as long as there is
enough of it. -/

namespace LetChain

structure Rewording extends Wording where
  join : ∀ a b, place (a.join b) = (place a).join (place b)

namespace Rewording

def ofName (f : String → String) : Rewording := ⟨.ofName f, fun _ _ => rfl⟩

def forget : Rewording := ⟨.ofPlace Span.forget, fun _ _ => rfl⟩

end Rewording

def Wording.text (w : Wording) (token : Token) : String :=
  if token.kind = .identifier then w.name token.text else token.text

/-- The same token, perhaps elsewhere. What the end looks like does not matter. -/
structure Token.Same (token token' : Token) : Prop where
  kind : token'.kind = token.kind
  text : token.kind ≠ .eof → token'.text = token.text

structure Token.Mirrors (f : Rewording) (token token' : Token) : Prop where
  kind : token'.kind = token.kind
  text : token.kind ≠ .eof → token'.text = f.text token
  span : token'.span = f.place token.span

theorem Token.Same.mirrors {f : Rewording} {token token' : Token} (same : token.Same token')
    (names : f.name = id) (span : token'.span = f.place token.span) : token.Mirrors f token' where
  kind := same.kind
  text content := by
    rw [same.text content, Wording.text, names, id, ite_self]
  span := span

theorem Token.Mirrors.refl (token : Token) : token.Mirrors (.ofName id) token :=
  Same.mirrors ⟨rfl, fun _ => rfl⟩ rfl rfl

def Token.reword (spell : String → String) (token : Token) : Token :=
  { token with text := (Wording.ofName spell).text token }

/-- Neither the end nor a name. -/
abbrev TokenKind.Plain (kind : TokenKind) : Prop := kind ≠ .eof ∧ kind ≠ .identifier

namespace Cursor

def tokens (cursor : Cursor) : List Token := cursor.current :: cursor.ahead

structure Mirrors (f : Rewording) (cursor cursor' : Cursor) : Prop where
  current : cursor.current.Mirrors f cursor'.current
  ahead : List.Forall₂ (Token.Mirrors f) cursor.ahead cursor'.ahead

def Ended (cursor : Cursor) : Prop := Token.Ended cursor.tokens

def left (cursor : Cursor) : Nat := cursor.ahead.length

variable {f : Rewording} {cursor cursor' : Cursor}

theorem Mirrors.nextKind (mirrors : cursor.Mirrors f cursor') :
    cursor'.nextKind = cursor.nextKind := by
  obtain ⟨current, ahead, names⟩ := cursor
  obtain ⟨current', ahead', names'⟩ := cursor'
  cases mirrors.ahead with
  | nil => rfl
  | cons first rest => exact first.kind

theorem Mirrors.step (mirrors : cursor.Mirrors f cursor') : cursor.step.Mirrors f cursor'.step := by
  obtain ⟨current, ahead, names⟩ := cursor
  obtain ⟨current', ahead', names'⟩ := cursor'
  cases mirrors.ahead with
  | nil => exact mirrors
  | cons first rest => exact ⟨first, rest⟩

theorem Ended.exists_ahead (ended : cursor.Ended) (content : cursor.current.kind ≠ .eof) :
    ∃ next rest, cursor.ahead = next :: rest ∧ Token.Ended (next :: rest) := by
  obtain ⟨others, last, tokens, isEnd, before⟩ := ended
  cases others with
  | nil =>
    obtain rfl : cursor.current = last := (List.cons.inj tokens).1
    exact absurd isEnd content
  | cons first others =>
    have ahead := (List.cons.inj tokens).2
    have later : Token.Ended cursor.ahead :=
      ⟨others, last, ahead, isEnd, fun token member => before token (by simp [member])⟩
    cases rest : cursor.ahead with
    | nil => simp [rest] at ahead
    | cons next rest' => exact ⟨next, rest', rfl, rest ▸ later⟩

theorem Ended.step (ended : cursor.Ended) : cursor.step.Ended := by
  by_cases content : cursor.current.kind = .eof
  · obtain ⟨others, last, tokens, isEnd, before⟩ := ended
    cases others with
    | nil =>
      obtain ⟨current, ahead, names⟩ := cursor
      obtain rfl : ahead = [] := (List.cons.inj tokens).2
      exact ⟨[], current, rfl, content, by simp⟩
    | cons first others =>
      have head : cursor.current = first := (List.cons.inj tokens).1
      exact absurd content (head ▸ before first (by simp))
  · obtain ⟨next, rest, ahead, later⟩ := ended.exists_ahead content
    obtain ⟨current, ahead, names⟩ := cursor
    subst ahead
    exact later

theorem left_step_le (cursor : Cursor) : cursor.step.left ≤ cursor.left := by
  obtain ⟨current, ahead, names⟩ := cursor
  cases ahead with
  | nil => exact Nat.le_refl _
  | cons next rest => exact Nat.le_succ _

theorem Ended.left_step_lt (ended : cursor.Ended) (content : cursor.current.kind ≠ .eof) :
    cursor.step.left < cursor.left := by
  obtain ⟨next, rest, ahead, -⟩ := ended.exists_ahead content
  obtain ⟨current, ahead, names⟩ := cursor
  subst ahead
  exact Nat.lt_succ_self _

theorem Ended.tokens_eq (ended : cursor.Ended) (isEnd : cursor.current.kind = .eof) :
    cursor.tokens = [cursor.current] := by
  obtain ⟨others, last, whole, -, before⟩ := ended
  cases others with
  | nil =>
    obtain ⟨rfl, ahead⟩ := List.cons.inj whole
    rw [Cursor.tokens, ahead]
  | cons first others =>
    obtain ⟨same, -⟩ := List.cons.inj whole
    exact absurd isEnd (same ▸ before first (by simp))

theorem mem_step {token : Token} (member : token ∈ cursor.tokens) :
    token = cursor.current ∨ token ∈ cursor.step.tokens := by
  obtain ⟨current, ahead, names⟩ := cursor
  cases ahead with
  | nil => exact Or.inr member
  | cons next rest => exact List.mem_cons.mp member

theorem names_step (cursor : Cursor) : cursor.step.names = cursor.names := by
  obtain ⟨current, ahead, names⟩ := cursor
  cases ahead <;> rfl

theorem step_eq_self (last : cursor.ahead = []) : cursor.step = cursor := by
  obtain ⟨current, ahead, names⟩ := cursor
  subst last
  rfl

/-- The same tokens with other words for names. -/
def reword (spell : String → String) (cursor : Cursor) : Cursor :=
  ⟨cursor.current.reword spell, cursor.ahead.map (Token.reword spell), cursor.names⟩

theorem mirrors_reword (spell : String → String) (cursor : Cursor) :
    cursor.Mirrors (.ofName spell) (cursor.reword spell) :=
  ⟨⟨rfl, fun _ => rfl, rfl⟩, List.forall₂_map_right_iff.mpr
    (List.forall₂_same.mpr fun _ _ => ⟨rfl, fun _ => rfl, rfl⟩)⟩

theorem reword_congr {spell spell' : String → String} (same : ∀ token ∈ cursor.tokens,
    token.kind = .identifier → spell token.text = spell' token.text) :
    cursor.reword spell = cursor.reword spell' := by
  have each (token : Token) (member : token ∈ cursor.tokens) :
      token.reword spell = token.reword spell' := by
    rw [Token.reword, Token.reword, Wording.text, Wording.text]
    split
    · exact congrArg (Token.mk _ _) (same token member (by assumption))
    · rfl
  rw [reword, reword, each _ List.mem_cons_self,
    List.map_congr_left fun token member => each token (List.mem_cons_of_mem _ member)]

theorem Mirrors.refl (cursor : Cursor) : cursor.Mirrors (.ofName id) cursor :=
  ⟨.refl _, List.forall₂_same.mpr fun token _ => .refl token⟩

end Cursor

namespace Reader

variable {α β γ δ : Type}

/-- The runs learn the same names, each in its own words, and all that they pass. -/
def LearnsSame (f : Rewording) (before before' after after' : Cursor) : Prop :=
  ∃ learned, after.names = before.names.insertAll learned ∧
    after'.names = before'.names.insertAll (learned.map f.name) ∧
    ∀ token ∈ before.tokens, token.kind = .identifier →
      token ∈ after.tokens ∨ token.text ∈ learned

namespace LearnsSame

variable {f : Rewording}

theorem refl (cursor cursor' : Cursor) : LearnsSame f cursor cursor' cursor cursor' :=
  ⟨[], rfl, rfl, fun _ member _ => Or.inl member⟩

theorem step {cursor : Cursor} (cursor' : Cursor) (plain : cursor.current.kind ≠ .identifier) :
    LearnsSame f cursor cursor' cursor.step cursor'.step := by
  refine ⟨[], cursor.names_step, cursor'.names_step, fun token member isName => ?_⟩
  rcases cursor.mem_step member with rfl | later
  · exact absurd isName plain
  · exact Or.inl later

theorem take (cursor cursor' : Cursor) : LearnsSame f cursor cursor'
    (cursor.step.learn cursor.current.text)
    (cursor'.step.learn (f.name cursor.current.text)) := by
  refine ⟨[cursor.current.text], ?_, ?_, fun token member isName => ?_⟩
  · exact congrArg (NameTable.insert · _) cursor.names_step
  · exact congrArg (NameTable.insert · _) cursor'.names_step
  · rcases cursor.mem_step member with rfl | later
    · exact Or.inr List.mem_cons_self
    · exact Or.inl later

theorem trans {a a' b b' c c' : Cursor} (first : LearnsSame f a a' b b')
    (second : LearnsSame f b b' c c') : LearnsSame f a a' c c' := by
  obtain ⟨learned, names, names', passed⟩ := first
  obtain ⟨more, later, later', passed'⟩ := second
  refine ⟨learned ++ more, ?_, ?_, fun token member isName => ?_⟩
  · rw [later, names, NameTable.insertAll_append]
  · rw [later', names', NameTable.insertAll_append, List.map_append]
  · rcases passed token member isName with left | isLearned
    · exact (passed' token left isName).imp_right fun isLearned => List.mem_append_right _ isLearned
    · exact Or.inr (List.mem_append_left _ isLearned)

end LearnsSame

/-- Both runs succeed with related results before the same tokens, or fail at the same place for the
same reason. If `moves` holds, then success means that a token was taken. -/
inductive Agree (f : Rewording) (moves : Bool) (related : α → β → Prop) (start start' : Cursor) :
    EStateM.Result (Located ParseError) Cursor α →
      EStateM.Result (Located ParseError) Cursor β → Prop
  | ok {a : α} {b : β} {cursor cursor' : Cursor} : related a b → cursor.Mirrors f cursor' →
      cursor.Ended → cursor.left + moves.toNat ≤ start.left →
      LearnsSame f start start' cursor cursor' →
      Agree f moves related start start' (.ok a cursor) (.ok b cursor')
  | error {error : Located ParseError} {cursor cursor' : Cursor} :
      LearnsSame f start start' cursor cursor' →
      Agree f moves related start start' (.error error cursor)
        (.error (error.relocate f.place) cursor')

def Mirrors (f : Rewording) (n : Nat) (moves : Bool) (related : α → β → Prop) (reader : Reader α)
    (reader' : Reader β) : Prop :=
  ∀ cursor cursor', cursor.Mirrors f cursor' → cursor.Ended → cursor.left ≤ n →
    Agree f moves related cursor cursor' (reader cursor) (reader' cursor')

def MirrorsAt (f : Rewording) (n : Nat) (kind : TokenKind) (moves : Bool) (related : α → β → Prop)
    (reader : Reader α) (reader' : Reader β) : Prop :=
  ∀ cursor cursor', cursor.Mirrors f cursor' → cursor.Ended → cursor.left ≤ n →
    cursor.current.kind = kind →
    Agree f moves related cursor cursor' (reader cursor) (reader' cursor')

section Rules

variable {f : Rewording} {n : Nat} {moves : Bool} {kind : TokenKind} {related : α → β → Prop}
  {related' : γ → δ → Prop} {reader : Reader α} {reader' : Reader β} {next : α → Reader γ}
  {next' : β → Reader δ}

theorem Agree.bind {cursor cursor' : Cursor} (moves' : Bool)
    (first : Agree f moves related cursor cursor' (reader cursor) (reader' cursor'))
    (rest : ∀ a b later later', related a b → later.Mirrors f later' → later.Ended →
      later.left + moves.toNat ≤ cursor.left →
      Agree f moves' related' later later' (next a later) (next' b later')) :
    Agree f (moves || moves') related' cursor cursor' ((reader >>= next) cursor)
      ((reader' >>= next') cursor') := by
  change Agree _ _ _ _ _ (EStateM.bind reader next cursor) (EStateM.bind reader' next' cursor')
  rw [EStateM.bind, EStateM.bind]
  generalize reader cursor = result at first ⊢
  generalize reader' cursor' = result' at first ⊢
  cases first with
  | error learns => exact .error learns
  | @ok a b later later' isRelated mirrors ended fewer learns =>
    have follows := rest a b later later' isRelated mirrors ended fewer
    change Agree _ _ _ _ _ (next a later) (next' b later')
    generalize next a later = result at follows ⊢
    generalize next' b later' = result' at follows ⊢
    cases follows with
    | error learns' => exact .error (learns.trans learns')
    | ok isRelated' mirrors' ended' fewer' learns' =>
      refine .ok isRelated' mirrors' ended' ?_ (learns.trans learns')
      cases moves <;> cases moves' <;> simp only [Bool.toNat_false, Bool.toNat_true,
        Bool.or_false, Bool.or_true] at * <;> omega

theorem Agree.step {cursor cursor' : Cursor}
    (first : Agree f true related cursor cursor' (reader cursor) (reader' cursor'))
    (bound : cursor.left ≤ n)
    (rest : ∀ k < n, ∀ a b, related a b → Mirrors f k false related' (next a) (next' b)) :
    Agree f true related' cursor cursor' ((reader >>= next) cursor) ((reader' >>= next') cursor') := by
  refine first.bind false ?_
  intro a b later later' isRelated same' ended' fewer
  have fewer : later.left + 1 ≤ cursor.left := fewer
  exact rest later.left (by omega) a b isRelated later later' same' ended' (Nat.le_refl _)

theorem Agree.weaken {cursor cursor' : Cursor}
    {result : EStateM.Result (Located ParseError) Cursor α}
    {result' : EStateM.Result (Located ParseError) Cursor β}
    (agree : Agree f true related cursor cursor' result result') :
    Agree f moves related cursor cursor' result result' := by
  cases agree with
  | error learns => exact .error learns
  | ok isRelated mirrors ended fewer learns =>
    refine .ok isRelated mirrors ended ?_ learns
    cases moves <;> simp only [Bool.toNat_false, Bool.toNat_true] at * <;> omega

namespace MirrorsAt

theorem weaken (mirrors : MirrorsAt f n kind true related reader reader') :
    MirrorsAt f n kind moves related reader reader' :=
  fun cursor cursor' same ended bound isKind =>
    (mirrors cursor cursor' same ended bound isKind).weaken

theorem step (first : MirrorsAt f n kind true related reader reader')
    (rest : ∀ k < n, ∀ a b, related a b → Mirrors f k false related' (next a) (next' b)) :
    MirrorsAt f n kind true related' (reader >>= next) (reader' >>= next') :=
  fun cursor cursor' same ended bound isKind =>
    (first cursor cursor' same ended bound isKind).step bound rest

theorem advance (plain : kind.Plain) :
    MirrorsAt f n kind true (Token.Mirrors f) advance advance :=
  fun _ cursor' same ended _ isKind =>
    .ok same.current same.step ended.step (ended.left_step_lt (isKind ▸ plain.1))
      (.step cursor' (isKind ▸ plain.2))

end MirrorsAt

namespace Mirrors

theorem anywhere (mirrors : Mirrors f n moves related reader reader') :
    MirrorsAt f n kind moves related reader reader' :=
  fun cursor cursor' same ended bound _ => mirrors cursor cursor' same ended bound

theorem weaken (mirrors : Mirrors f n true related reader reader') :
    Mirrors f n moves related reader reader' :=
  fun cursor cursor' same ended bound => (mirrors cursor cursor' same ended bound).weaken

theorem mono {k : Nat} (mirrors : Mirrors f n moves related reader reader') (fewer : k ≤ n) :
    Mirrors f k moves related reader reader' :=
  fun cursor cursor' same ended bound => mirrors cursor cursor' same ended (by omega)

theorem bind (first : Mirrors f n false related reader reader')
    (rest : ∀ a b, related a b → Mirrors f n moves related' (next a) (next' b)) :
    Mirrors f n moves related' (reader >>= next) (reader' >>= next') := by
  intro cursor cursor' same ended bound
  refine (first cursor cursor' same ended bound).bind moves ?_
  intro a b later later' isRelated same' ended' fewer
  have fewer : later.left ≤ cursor.left := fewer
  exact rest a b isRelated later later' same' ended' (by omega)

theorem step (first : Mirrors f n true related reader reader')
    (rest : ∀ k < n, ∀ a b, related a b → Mirrors f k false related' (next a) (next' b)) :
    Mirrors f n true related' (reader >>= next) (reader' >>= next') :=
  fun cursor cursor' same ended bound =>
    (first.anywhere.step rest) cursor cursor' same ended bound rfl

theorem pure {a : α} {b : β} (isRelated : related a b) :
    Mirrors f n false related (Pure.pure a) (Pure.pure b) :=
  fun cursor cursor' same ended _ => .ok isRelated same ended (Nat.le_refl _) (.refl cursor cursor')

theorem fail {span span' : Span} {error : ParseError} (moved : span' = f.place span) :
    Mirrors f n moves related (fail span error) (fail span' error) := by
  subst moved
  exact fun cursor cursor' _ _ _ => .error (.refl cursor cursor')

theorem get_bind {next : Cursor → Reader γ} {next' : Cursor → Reader δ}
    (rest : ∀ cursor cursor', cursor.Mirrors f cursor' → cursor.Ended → cursor.left ≤ n →
      Agree f moves related' cursor cursor' (next cursor cursor) (next' cursor' cursor')) :
    Mirrors f n moves related' (MonadState.get >>= next) (MonadState.get >>= next') := rest

theorem peek_bind {next : Token → Reader γ} {next' : Token → Reader δ}
    (rest : ∀ token token', token.Mirrors f token' →
      MirrorsAt f n token.kind moves related' (next token) (next' token')) :
    Mirrors f n moves related' (peek >>= next) (peek >>= next') :=
  fun cursor cursor' same ended bound =>
    rest cursor.current cursor'.current same.current cursor cursor' same ended bound rfl

theorem unexpected : Mirrors f n moves related unexpected unexpected :=
  peek_bind fun token token' same => by
    rw [same.kind]
    exact (fail same.span).anywhere

theorem ite {cond cond' : Prop} [Decidable cond] [Decidable cond'] {yes no : Reader α}
    {yes' no' : Reader β} (same : cond' ↔ cond) (ifYes : Mirrors f n moves related yes yes')
    (ifNo : Mirrors f n moves related no no') :
    Mirrors f n moves related (if cond then yes else no) (if cond' then yes' else no') := by
  by_cases holds : cond
  · rw [if_pos holds, if_pos (same.mpr holds)]
    exact ifYes
  · rw [if_neg holds, if_neg (fun holds' => holds (same.mp holds'))]
    exact ifNo

theorem isAt (kind : TokenKind) : Mirrors f n false (· = ·) (isAt kind) (isAt kind) :=
  peek_bind fun _ _ same => (pure (by rw [same.kind])).anywhere

def Takes (f : Rewording) (kind : TokenKind) (token token' : Token) : Prop :=
  token.Mirrors f token' ∧ token.kind = kind

theorem expect_of (advances : MirrorsAt f n kind moves (Takes f kind) Reader.advance Reader.advance) :
    Mirrors f n moves (Takes f kind) (expect kind) (expect kind) := by
  refine peek_bind fun token token' same => ?_
  rw [same.kind]
  by_cases isKind : token.kind = kind
  · rw [if_pos isKind, if_pos isKind, isKind]
    exact advances
  · rw [if_neg isKind, if_neg isKind]
    exact (fail same.span).anywhere

theorem expect (plain : kind.Plain) :
    Mirrors f n true (Takes f kind) (expect kind) (expect kind) :=
  expect_of fun _ cursor' same ended _ isKind =>
    .ok ⟨same.current, isKind⟩ same.step ended.step
      (ended.left_step_lt (isKind ▸ plain.1)) (.step cursor' (isKind ▸ plain.2))

theorem expect_eof :
    Mirrors f n false (Takes f .eof) (Reader.expect .eof) (Reader.expect .eof) :=
  expect_of fun cursor cursor' same ended _ isKind =>
    .ok ⟨same.current, isKind⟩ same.step ended.step cursor.left_step_le
      (.step cursor' (by simp [isKind]))

theorem take_bind {yes no : Reader γ} {yes' no' : Reader δ} (plain : kind.Plain)
    (ifYes : ∀ k < n, Mirrors f k false related' yes yes')
    (ifNo : Mirrors f n moves related' no no') :
    Mirrors f n moves related' (take kind >>= fun taken => if taken = true then yes else no)
      (take kind >>= fun taken => if taken = true then yes' else no') := by
  intro cursor cursor' same ended bound
  change Agree _ _ _ _ _
    (((if decide (cursor.current.kind = kind) = true then Reader.advance >>= fun _ => Pure.pure true
      else Pure.pure false) >>= fun taken => if taken = true then yes else no) cursor)
    (((if decide (cursor'.current.kind = kind) = true then Reader.advance >>= fun _ => Pure.pure true
      else Pure.pure false) >>= fun taken => if taken = true then yes' else no') cursor')
  rw [same.current.kind]
  by_cases isKind : cursor.current.kind = kind
  · rw [if_pos (decide_eq_true isKind)]
    have taken : MirrorsAt f n kind true related'
        (Reader.advance >>= fun _ => yes) (Reader.advance >>= fun _ => yes') :=
      (MirrorsAt.advance plain).step fun k fewer _ _ _ => ifYes k fewer
    exact (taken cursor cursor' same ended bound isKind).weaken
  · rw [if_neg (by simpa using isKind)]
    exact ifNo cursor cursor' same ended bound

theorem ident : Mirrors f n true (fun a b => b = a.carry f.toWording) ident ident := by
  have read (cursor : Cursor) : Reader.ident cursor = if cursor.current.kind = .identifier then
      .ok ⟨cursor.current.text, cursor.current.span⟩ (cursor.step.learn cursor.current.text)
      else .error ⟨cursor.current.span, .unexpected cursor.current.kind .identifier⟩ cursor := by
    change EStateM.bind (Reader.expect .identifier) _ cursor = _
    rw [EStateM.bind, expect_eq]
    by_cases isName : cursor.current.kind = .identifier <;> simp only [isName, if_true, if_false]
    rfl
  intro cursor cursor' same ended _
  rw [read, read, same.current.kind, same.current.span]
  by_cases isName : cursor.current.kind = .identifier
  · have content : cursor.current.kind ≠ .eof := by simp [isName]
    rw [if_pos isName, if_pos isName, same.current.text content, Wording.text, if_pos isName]
    exact .ok rfl ⟨same.step.current, same.step.ahead⟩ ended.step (ended.left_step_lt content)
      (.take cursor cursor')
  · rw [if_neg isName, if_neg isName]
    exact .error (.refl cursor cursor')

/-- The induction is on the fuel of one reader; each item takes a token. -/
theorem separated {g : α → β} {item : Reader α} {item' : Reader β} {close : TokenKind}
    (isItem : Mirrors f n true (fun a b => b = g a) item item') :
    ∀ (fuel fuel' k : Nat) (items : Array α), k ≤ n → k < fuel → k < fuel' →
      Mirrors f k false (fun xs ys => ys = xs.map g) (separated close item fuel items)
        (separated close item' fuel' (items.map g)) := by
  intro fuel
  induction fuel with
  | zero =>
    intro fuel' k items _ low
    omega
  | succ fuel ih =>
    intro fuel' k items within low low'
    obtain ⟨fuel', rfl⟩ : ∃ m, fuel' = m + 1 := ⟨fuel' - 1, by omega⟩
    rw [Reader.separated, Reader.separated]
    refine (isAt close).bind fun found found' same => ite (by rw [same]) (pure (by simp)) ?_
    refine weaken ((isItem.mono within).step fun left fewer a b isMapped => ?_)
    subst isMapped
    rw [← Array.map_push]
    refine take_bind (by decide) (fun later fewer' => ?_) ?_
    · exact ih fuel' later (items.push a) (by omega) (by omega) (by omega)
    · refine (isAt close).bind fun found found' same => ite (by rw [same]) (pure (by simp)) ?_
      refine peek_bind fun token token' same => ?_
      rw [same.kind]
      exact (fail same.span).anywhere

theorem list {g : α → β} {item : Reader α} {item' : Reader β} {fuel fuel' : Nat}
    (isItem : Mirrors f n true (fun a b => b = g a) item item') (close : TokenKind)
    (low : n < fuel) (low' : n < fuel') :
    Mirrors f n false (fun xs ys => ys = xs.map g) (Reader.separated close item fuel #[])
      (Reader.separated close item' fuel' #[]) := by
  simpa using separated isItem fuel fuel' n #[] (Nat.le_refl n) low low'

end Mirrors

end Rules

/-! ### The forms of the grammar -/

/-- The readers of two runs that give trees which differ only in where they stand. -/
abbrev ReadsAs (f : Rewording) (n : Nat) (g : α → α) (reader reader' : Reader α) : Prop :=
  Mirrors f n true (fun a b => b = g a) reader reader'

namespace Mirrors

variable {f : Rewording} {n : Nat}

theorem typeRef : ∀ (fuel fuel' n : Nat), 8 * n + 1 ≤ fuel → 8 * n + 1 ≤ fuel' →
    ReadsAs f n (TypeRef.carry f.toWording) (typeRef fuel) (typeRef fuel')
  | 0, _, _, low, _ => by omega
  | _ + 1, 0, _, _, low => by omega
  | fuel + 1, fuel' + 1, n, low, low' => by
    rw [Reader.typeRef, Reader.typeRef]
    refine ident.step fun k fewer name _ isName => ?_
    subst isName
    refine take_bind (by decide) (fun l fewer' => ?_) (pure ?_)
    · have arg := typeRef fuel fuel' l (by omega) (by omega)
      refine (list arg .greater (by omega) (by omega)).bind fun args _ areArgs => ?_
      subst areArgs
      refine (expect (by decide)).weaken.bind fun close close' closes => pure ?_
      simp [f.join, closes.1.span]
    · simp

theorem binding {fuel fuel' : Nat} (low : 8 * n + 1 ≤ fuel) (low' : 8 * n + 1 ≤ fuel') :
    ReadsAs f n (Binding.carry f.toWording) (binding fuel) (binding fuel') := by
  refine ident.step fun k fewer name _ isName => ?_
  subst isName
  refine (typeRef fuel fuel' k (by omega) (by omega)).weaken.bind fun type _ isType => pure ?_
  subst isType
  rfl

theorem recordDecl {fuel fuel' : Nat} (low : 8 * n + 1 ≤ fuel) (low' : 8 * n + 1 ≤ fuel') :
    ReadsAs f n (Stmt.carry f.parsed) (recordDecl fuel) (recordDecl fuel') := by
  refine (expect (by decide)).step fun k fewer start start' ⟨starts, _⟩ => ?_
  refine ident.weaken.bind fun name _ isName => ?_
  subst isName
  refine (expect (by decide)).weaken.bind fun _ _ _ => ?_
  have field : ReadsAs f k (Binding.carry f.toWording) (Reader.binding fuel) (Reader.binding fuel') :=
    binding (by omega) (by omega)
  refine (list field .rightBrace (by omega) (by omega)).bind fun fields _ areFields => ?_
  subst areFields
  refine (expect (by decide)).weaken.bind fun close close' ⟨closes, _⟩ => pure ?_
  simp [f.join, starts.span, closes.span]

theorem members : ∀ (fuel fuel' n : Nat) (base : PExpr), 8 * n + 1 ≤ fuel → 8 * n + 1 ≤ fuel' →
    Mirrors f n false (fun a b => b = a.carry f.parsed) (members fuel base)
      (members fuel' (base.carry f.parsed))
  | 0, _, _, _, low, _ => by omega
  | _ + 1, 0, _, _, _, low => by omega
  | fuel + 1, fuel' + 1, n, base, low, low' => by
    rw [Reader.members, Reader.members]
    refine get_bind fun cursor cursor' same ended bound => ?_
    rw [same.current.kind, same.nextKind]
    by_cases isMember : cursor.current.kind = .dot ∧ cursor.nextKind = .identifier
    · rw [if_pos isMember, if_pos isMember]
      refine ((MirrorsAt.advance (by decide)).step fun k fewer _ _ _ => ?_).weaken cursor cursor' same
        ended bound isMember.1
      refine ident.weaken.bind fun field _ isField => ?_
      subst isField
      have rest := members fuel fuel' k (.member base field () (base.span.join field.span) ())
        (by omega) (by omega)
      simpa [f.join] using rest
    · rw [if_neg isMember, if_neg isMember]
      exact .ok rfl same ended (Nat.le_refl _) (.refl cursor cursor')

/-- The cursor stands before the operator, which is one token or two. -/
def Stands (op : Operator) (cursor : Cursor) : Prop :=
  cursor.current.kind.Plain ∧ (op ∈ [.eq, .ne, .concat] → cursor.nextKind.Plain)

theorem operator?_bind {γ δ : Type} {moves : Bool} {related : γ → δ → Prop}
    {next : Option Operator → Reader γ} {next' : Option Operator → Reader δ}
    (ifNone : Mirrors f n moves related (next none) (next' none))
    (ifSome : ∀ op cursor cursor', Stands op cursor → cursor.Mirrors f cursor' → cursor.Ended →
      cursor.left ≤ n →
      Agree f moves related cursor cursor' (next (some op) cursor) (next' (some op) cursor')) :
    Mirrors f n moves related (operator? >>= next) (operator? >>= next') := by
  intro cursor cursor' same ended bound
  obtain ⟨found, here, here', stands⟩ : ∃ found, Reader.operator? cursor = .ok found cursor ∧
      Reader.operator? cursor' = .ok found cursor' ∧ ∀ op, found = some op → Stands op cursor := by
    refine ⟨_, rfl, ?_, fun op isOp => ?_⟩
    · change EStateM.Result.ok _ _ = _
      rw [same.current.kind, same.nextKind]
    · rw [Stands]
      split at isOp <;> cases isOp <;> simp_all [TokenKind.Plain]
  change Agree _ _ _ _ _ (EStateM.bind Reader.operator? next cursor)
    (EStateM.bind Reader.operator? next' cursor')
  rw [EStateM.bind, EStateM.bind, here, here']
  cases found with
  | none => exact ifNone cursor cursor' same ended bound
  | some op => exact ifSome op cursor cursor' (stands op rfl) same ended bound

theorem takeOperator {op : Operator} {cursor cursor' : Cursor} (stands : Stands op cursor)
    (same : cursor.Mirrors f cursor') (ended : cursor.Ended) :
    Agree f true (fun _ _ => True) cursor cursor' (takeOperator op cursor)
      (takeOperator op cursor') := by
  obtain ⟨⟨content, plain⟩, second⟩ := stands
  have first : LearnsSame f cursor cursor' cursor.step cursor'.step := .step cursor' plain
  have fewer := ended.left_step_lt content
  cases op with
  | eq | ne | concat =>
    obtain ⟨next, rest, ahead, -⟩ := ended.exists_ahead content
    have isNext : cursor.step.current.kind = cursor.nextKind := by
      obtain ⟨current, ahead, names⟩ := cursor
      subst ahead
      rfl
    refine .ok trivial same.step.step ended.step.step ?_
      (first.trans (.step _ (isNext ▸ (second (by decide)).2)))
    exact Nat.le_trans (Nat.succ_le_succ cursor.step.left_step_le) fewer
  | _ => exact .ok trivial same.step ended.step fewer first

theorem asBlock_carry (e : PExpr) : asBlock (e.carry f.parsed) = (asBlock e).carry f.parsed := by
  cases e with
  | range first limit step span ty =>
    cases step <;> simp [asBlock, Expr.span]
  | block body ty => simp [asBlock]
  | _ => simp [asBlock, Expr.span]

-- The induction is on the fuel of one of the runs, which each form passes on. A form that has taken a
-- token has fewer left, and eight units of fuel for it are enough to get to the next token.
mutual

theorem expr : ∀ (fuel fuel' n : Nat), 8 * n + 3 ≤ fuel → 8 * n + 3 ≤ fuel' →
    ReadsAs f n (Expr.carry f.parsed) (expr fuel) (expr fuel')
  | 0, _, _, low, _ => by omega
  | _ + 1, 0, _, _, low => by omega
  | fuel + 1, fuel' + 1, n, low, low' => by
    rw [Reader.expr, Reader.expr]
    refine (operand fuel fuel' n (by omega) (by omega)).step fun k fewer lhs _ isLhs => ?_
    subst isLhs
    exact operators fuel fuel' k lhs 0 (by omega) (by omega)

theorem operators : ∀ (fuel fuel' n : Nat) (lhs : PExpr) (floor : Nat),
    8 * n + 1 ≤ fuel → 8 * n + 1 ≤ fuel' →
    Mirrors f n false (fun a b => b = a.carry f.parsed) (Reader.operators fuel lhs floor)
      (Reader.operators fuel' (lhs.carry f.parsed) floor)
  | 0, _, _, _, _, low, _ => by omega
  | _ + 1, 0, _, _, _, _, low => by omega
  | fuel + 1, fuel' + 1, n, lhs, floor, low, low' => by
    rw [Reader.operators, Reader.operators]
    refine operator?_bind (pure rfl) fun op cursor cursor' stands same ended bound => ?_
    by_cases looser : op.precedence ≤ floor
    · simp only [if_pos looser]
      exact .ok rfl same ended (Nat.le_refl _) (.refl cursor cursor')
    · simp only [if_neg looser]
      refine ((takeOperator stands same ended).step bound fun k fewer _ _ _ => ?_).weaken
      refine (operand fuel fuel' k (by omega) (by omega)).weaken.bind fun first _ isFirst => ?_
      subst isFirst
      refine (operators fuel fuel' k first op.precedence (by omega) (by omega)).bind ?_
      intro rhs _ isRhs
      subst isRhs
      have rest := operators fuel fuel' k (.binary op lhs rhs (lhs.span.join rhs.span) ()) floor
        (by omega) (by omega)
      simpa [f.join] using rest

theorem operand : ∀ (fuel fuel' n : Nat), 8 * n + 2 ≤ fuel → 8 * n + 2 ≤ fuel' →
    ReadsAs f n (Expr.carry f.parsed) (Reader.operand fuel) (Reader.operand fuel')
  | 0, _, _, low, _ => by omega
  | _ + 1, 0, _, _, low => by omega
  | fuel + 1, fuel' + 1, n, low, low' => by
    rw [Reader.operand, Reader.operand]
    have rest (k : Nat) (fewer : k < n) (base base' : PExpr)
        (same : base' = base.carry f.parsed) :
        Mirrors f k false (fun a b => b = a.carry f.parsed) (Reader.members fuel base)
          (Reader.members fuel' base') := by
      subst same
      exact members fuel fuel' k base (by omega) (by omega)
    have leaf (k : Nat) (fewer : k < n) (base base' : PExpr)
        (same : base' = base.carry f.parsed) :
        Mirrors f k false (fun a b => b = a.carry f.parsed)
          (Pure.pure base >>= Reader.members fuel)
          (Pure.pure base' >>= Reader.members fuel') := rest k fewer base base' same
    refine peek_bind fun ⟨kind, span, text⟩ ⟨kind', span', text'⟩ ⟨kinds, texts, spans⟩ => ?_
    obtain rfl : kind = kind' := kinds.symm
    obtain rfl : span' = f.place span := spans
    cases kind with
    | number =>
      obtain rfl : text = text' := (texts (by nofun)).symm
      refine (MirrorsAt.advance ⟨by nofun, by nofun⟩).step fun k fewer _ _ _ => ?_
      dsimp only
      cases Number.read? text with
      | none => exact fail rfl
      | some value => exact leaf k fewer _ _ rfl
    | string =>
      obtain rfl : text = text' := (texts (by nofun)).symm
      refine (MirrorsAt.advance ⟨by nofun, by nofun⟩).step fun k fewer _ _ _ => ?_
      dsimp only [Token.content?, Token.quotedSize]
      cases Text.slice? text 1 _ with
      | none => exact fail rfl
      | some value => exact leaf k fewer _ _ rfl
    | trueKw | falseKw =>
      exact (MirrorsAt.advance ⟨by nofun, by nofun⟩).step fun k fewer _ _ _ => leaf k fewer _ _ rfl
    | identifier =>
      exact (step (named fuel fuel' n (by omega) (by omega)) rest).anywhere
    | leftParen =>
      refine (MirrorsAt.advance ⟨by nofun, by nofun⟩).step fun k fewer _ _ _ => ?_
      refine (expr fuel fuel' k (by omega) (by omega)).weaken.bind fun inner _ isInner => ?_
      exact (expect (by decide)).weaken.bind fun _ _ _ => leaf k fewer _ _ isInner
    | leftBrace =>
      refine (step (block fuel fuel' n (by omega) (by omega)) fun k fewer body _ isBody => ?_).anywhere
      subst isBody
      exact leaf k fewer _ _ rfl
    | ifKw => exact (step (conditional fuel fuel' n (by omega) (by omega)) rest).anywhere
    | foreachKw => exact (step (loop fuel fuel' n (by omega) (by omega)) rest).anywhere
    | leftBracket => exact (step (range fuel fuel' n (by omega) (by omega)) rest).anywhere
    | _ => exact (unexpected.step fun k fewer base base' same => rest k fewer base base' same).anywhere

theorem named : ∀ (fuel fuel' n : Nat), 8 * n + 1 ≤ fuel → 8 * n + 1 ≤ fuel' →
    ReadsAs f n (Expr.carry f.parsed) (Reader.named fuel) (Reader.named fuel')
  | 0, _, _, low, _ => by omega
  | _ + 1, 0, _, _, low => by omega
  | fuel + 1, fuel' + 1, n, low, low' => by
    rw [Reader.named, Reader.named]
    refine ident.step fun k fewer name _ isName => ?_
    subst isName
    have args (l : Nat) (fewer' : l < n) (close : TokenKind) :
        Mirrors f l false (fun xs ys => ys = xs.map (Expr.carry f.parsed))
          (Reader.separated close (Reader.expr fuel) fuel #[])
          (Reader.separated close (Reader.expr fuel') fuel' #[]) :=
      list (expr fuel fuel' l (by omega) (by omega)) close (by omega) (by omega)
    refine take_bind (by decide) (fun l fewer' => ?_) (take_bind (by decide) (fun l fewer' => ?_) ?_)
    · refine (args l (by omega) .rightParen).bind fun args _ areArgs => ?_
      subst areArgs
      refine (expect (by decide)).weaken.bind fun close close' ⟨closes, _⟩ => pure ?_
      simp [f.join, closes.span]
    · refine (args l (by omega) .rightBrace).bind fun args _ areArgs => ?_
      subst areArgs
      refine (expect (by decide)).weaken.bind fun close close' ⟨closes, _⟩ => pure ?_
      simp [f.join, closes.span]
    · exact pure rfl

theorem conditional : ∀ (fuel fuel' n : Nat), 8 * n + 1 ≤ fuel → 8 * n + 1 ≤ fuel' →
    ReadsAs f n (Expr.carry f.parsed) (Reader.conditional fuel) (Reader.conditional fuel')
  | 0, _, _, low, _ => by omega
  | _ + 1, 0, _, _, low => by omega
  | fuel + 1, fuel' + 1, n, low, low' => by
    rw [Reader.conditional, Reader.conditional]
    refine (expect (by decide)).step fun k fewer start start' ⟨starts, _⟩ => ?_
    refine (expr fuel fuel' k (by omega) (by omega)).weaken.bind fun cond _ isCond => ?_
    refine (expect (by decide)).weaken.bind fun _ _ _ => ?_
    refine (expr fuel fuel' k (by omega) (by omega)).weaken.bind fun yes _ isYes => ?_
    subst isCond isYes
    refine take_bind (by decide) (fun l fewer' => ?_) (pure ?_)
    · refine (expr fuel fuel' l (by omega) (by omega)).weaken.bind fun no _ isNo => pure ?_
      subst isNo
      simp [asBlock_carry, f.join, starts.span]
    · simp [asBlock_carry, f.join, starts.span]

theorem loop : ∀ (fuel fuel' n : Nat), 8 * n + 1 ≤ fuel → 8 * n + 1 ≤ fuel' →
    ReadsAs f n (Expr.carry f.parsed) (Reader.loop fuel) (Reader.loop fuel')
  | 0, _, _, low, _ => by omega
  | _ + 1, 0, _, _, low => by omega
  | fuel + 1, fuel' + 1, n, low, low' => by
    rw [Reader.loop, Reader.loop]
    refine (expect (by decide)).step fun k fewer start start' ⟨starts, _⟩ => ?_
    refine ident.weaken.bind fun element _ isElement => ?_
    refine (typeRef fuel fuel' k (by omega) (by omega)).weaken.bind fun type _ isType => ?_
    refine (expect (by decide)).weaken.bind fun _ _ _ => ?_
    refine (expr fuel fuel' k (by omega) (by omega)).weaken.bind fun source _ isSource => ?_
    refine (expect (by decide)).weaken.bind fun _ _ _ => ?_
    refine (expr fuel fuel' k (by omega) (by omega)).weaken.bind fun body _ isBody => pure ?_
    subst isElement isType isSource isBody
    simp [asBlock_carry, f.join, starts.span]

theorem range : ∀ (fuel fuel' n : Nat), 8 * n + 1 ≤ fuel → 8 * n + 1 ≤ fuel' →
    ReadsAs f n (Expr.carry f.parsed) (Reader.range fuel) (Reader.range fuel')
  | 0, _, _, low, _ => by omega
  | _ + 1, 0, _, _, low => by omega
  | fuel + 1, fuel' + 1, n, low, low' => by
    rw [Reader.range, Reader.range]
    refine (expect (by decide)).step fun k fewer start start' ⟨starts, _⟩ => ?_
    refine (expr fuel fuel' k (by omega) (by omega)).weaken.bind fun first _ isFirst => ?_
    refine (expect (by decide)).weaken.bind fun _ _ _ => ?_
    refine (expr fuel fuel' k (by omega) (by omega)).weaken.bind fun limit _ isLimit => ?_
    subst isFirst isLimit
    have close (l : Nat) (step : Option PExpr) : Mirrors f l false
        (fun a b => b = a.carry f.parsed)
        (do
          let close ← Reader.expect .rightBracket
          return Expr.range first limit step (start.span.join close.span) ())
        (do
          let close ← Reader.expect .rightBracket
          return Expr.range (first.carry f.parsed) (limit.carry f.parsed)
            (step.map (Expr.carry f.parsed)) (start'.span.join close.span) ()) := by
      refine (expect (by decide)).weaken.bind fun close close' ⟨closes, _⟩ => pure ?_
      simp [Expr.carry_range, f.join, starts.span, closes.span]
    refine take_bind (by decide) (fun l fewer' => ?_) (close k none)
    simp only [bind_map_left]
    refine (expr fuel fuel' l (by omega) (by omega)).weaken.bind fun step _ isStep => ?_
    subst isStep
    exact close l (some step)

theorem block : ∀ (fuel fuel' n : Nat), 8 * n + 1 ≤ fuel → 8 * n + 1 ≤ fuel' →
    ReadsAs f n (Block.carry f.parsed) (Reader.block fuel) (Reader.block fuel')
  | 0, _, _, low, _ => by omega
  | _ + 1, 0, _, _, low => by omega
  | fuel + 1, fuel' + 1, n, low, low' => by
    rw [Reader.block, Reader.block]
    refine (expect (by decide)).step fun k fewer start start' ⟨starts, _⟩ => ?_
    have inside := stmtsUntilBrace fuel fuel' k #[] (by omega) (by omega)
    rw [Array.map_empty] at inside
    refine inside.bind fun stmts _ areStmts => ?_
    subst areStmts
    refine (expect (by decide)).weaken.bind fun close close' ⟨closes, _⟩ => pure ?_
    simp [f.join, starts.span, closes.span]

theorem stmtsUntilBrace : ∀ (fuel fuel' n : Nat) (stmts : Array PStmt),
    8 * n + 5 ≤ fuel → 8 * n + 5 ≤ fuel' →
    Mirrors f n false (fun xs ys => ys = xs.map (Stmt.carry f.parsed))
      (Reader.stmtsUntilBrace fuel stmts)
      (Reader.stmtsUntilBrace fuel' (stmts.map (Stmt.carry f.parsed)))
  | 0, _, _, _, low, _ => by omega
  | _ + 1, 0, _, _, _, low => by omega
  | fuel + 1, fuel' + 1, n, stmts, low, low' => by
    rw [Reader.stmtsUntilBrace, Reader.stmtsUntilBrace]
    refine (isAt _).bind fun _ _ same => ite (by rw [same]) (pure (by simp)) ?_
    refine (step (stmt fuel fuel' n (by omega) (by omega)) fun k fewer first _ isFirst => ?_).weaken
    subst isFirst
    rw [← Array.map_push]
    exact stmtsUntilBrace fuel fuel' k (stmts.push first) (by omega) (by omega)

theorem stmt : ∀ (fuel fuel' n : Nat), 8 * n + 4 ≤ fuel → 8 * n + 4 ≤ fuel' →
    ReadsAs f n (Stmt.carry f.parsed) (Reader.stmt fuel) (Reader.stmt fuel')
  | 0, _, _, low, _ => by omega
  | _ + 1, 0, _, _, low => by omega
  | fuel + 1, fuel' + 1, n, low, low' => by
    rw [Reader.stmt, Reader.stmt]
    refine peek_bind fun token token' same => ?_
    rw [same.kind]
    split
    · exact (function fuel fuel' n (by omega) (by omega)).anywhere
    · exact (recordDecl (by omega) (by omega)).anywhere
    · exact (letStmt fuel fuel' n (by omega) (by omega)).anywhere
    · refine (step (expr fuel fuel' n (by omega) (by omega))
        fun k fewer value _ isValue => pure ?_).anywhere
      subst isValue
      rfl

theorem function : ∀ (fuel fuel' n : Nat), 8 * n + 1 ≤ fuel → 8 * n + 1 ≤ fuel' →
    ReadsAs f n (Stmt.carry f.parsed) (Reader.function fuel) (Reader.function fuel')
  | 0, _, _, low, _ => by omega
  | _ + 1, 0, _, _, low => by omega
  | fuel + 1, fuel' + 1, n, low, low' => by
    rw [Reader.function, Reader.function]
    refine (expect (by decide)).step fun k fewer start start' ⟨starts, _⟩ => ?_
    refine ident.weaken.bind fun name _ isName => ?_
    refine (expect (by decide)).weaken.bind fun _ _ _ => ?_
    have param : ReadsAs f k (Binding.carry f.toWording) (Reader.binding fuel)
        (Reader.binding fuel') := binding (by omega) (by omega)
    refine (list param .rightParen (by omega) (by omega)).bind fun params _ areParams => ?_
    refine (expect (by decide)).weaken.bind fun _ _ _ => ?_
    refine (expect (by decide)).weaken.bind fun _ _ _ => ?_
    refine (typeRef fuel fuel' k (by omega) (by omega)).weaken.bind fun returns _ isReturns => ?_
    refine (block fuel fuel' k (by omega) (by omega)).weaken.bind fun body _ isBody => pure ?_
    subst isName areParams isReturns isBody
    simp [f.join, starts.span]

theorem letStmt : ∀ (fuel fuel' n : Nat), 8 * n + 1 ≤ fuel → 8 * n + 1 ≤ fuel' →
    ReadsAs f n (Stmt.carry f.parsed) (Reader.letStmt fuel) (Reader.letStmt fuel')
  | 0, _, _, low, _ => by omega
  | _ + 1, 0, _, _, low => by omega
  | fuel + 1, fuel' + 1, n, low, low' => by
    rw [Reader.letStmt, Reader.letStmt]
    refine (expect (by decide)).step fun k fewer start start' ⟨starts, _⟩ => ?_
    refine ident.weaken.bind fun name _ isName => ?_
    refine (typeRef fuel fuel' k (by omega) (by omega)).weaken.bind fun type _ isType => ?_
    refine (expect (by decide)).weaken.bind fun _ _ _ => ?_
    refine (expr fuel fuel' k (by omega) (by omega)).weaken.bind fun first _ isFirst => ?_
    subst isName isType isFirst
    refine ite (by simp) (fail (by simp)) ?_
    have rest := chain fuel fuel' k #[] (start.span.join first.span) (by omega) (by omega)
    have isSpan : (first.carry f.parsed).span = f.place first.span := first.span_carry
    rw [Array.map_empty, f.join, ← starts.span, ← isSpan] at rest
    refine rest.bind fun chained _ areChained => pure ?_
    subst areChained
    simp

theorem chain : ∀ (fuel fuel' n : Nat) (bodies : Array PExpr) (span : Span),
    8 * n + 1 ≤ fuel → 8 * n + 1 ≤ fuel' →
    Mirrors f n false (fun a b => b = (a.1.map (Expr.carry f.parsed), f.place a.2))
      (Reader.chain fuel bodies span)
      (Reader.chain fuel' (bodies.map (Expr.carry f.parsed)) (f.place span))
  | 0, _, _, _, _, low, _ => by omega
  | _ + 1, 0, _, _, _, _, low => by omega
  | fuel + 1, fuel' + 1, n, bodies, span, low, low' => by
    rw [Reader.chain, Reader.chain]
    refine take_bind (by decide) (fun k fewer => ?_) (pure (by simp))
    refine (expr fuel fuel' k (by omega) (by omega)).weaken.bind fun body _ isBody => ?_
    subst isBody
    rw [← Array.map_push, Expr.span_carry, Wording.toWording_parsed, ← f.join]
    exact chain fuel fuel' k (bodies.push body) (span.join body.span) (by omega) (by omega)

end

theorem declarations : ∀ (fuel fuel' n : Nat) (stmts : Array PStmt),
    8 * n + 2 ≤ fuel → 8 * n + 2 ≤ fuel' →
    Mirrors f n false (fun xs ys => ys = xs.map (Stmt.carry f.parsed))
      (Reader.declarations fuel stmts)
      (Reader.declarations fuel' (stmts.map (Stmt.carry f.parsed)))
  | 0, _, _, _, low, _ => by omega
  | _ + 1, 0, _, _, _, low => by omega
  | fuel + 1, fuel' + 1, n, stmts, low, low' => by
    rw [Reader.declarations, Reader.declarations]
    refine peek_bind fun token token' same => ?_
    rw [same.kind]
    have more (k : Nat) (fewer : k < n) (first : PStmt) := declarations fuel fuel' k
      (stmts.push first) (by omega) (by omega)
    simp only [Array.map_push] at more
    split
    · refine (step (function fuel fuel' n (by omega) (by omega)) ?_).weaken.anywhere
      rintro k fewer first _ rfl
      exact more k fewer first
    · refine (step (recordDecl (by omega) (by omega)) ?_).weaken.anywhere
      rintro k fewer first _ rfl
      exact more k fewer first
    · exact (pure (by simp)).anywhere
    · exact (fail same.span).anywhere

end Mirrors

/-! ### Whole texts -/

/-- What a reader of whole texts gives depends neither on fuel nor on the names known before, on the
places of tokens only in the places within the result, and on names only in the names within it. It
leaves nothing unread. -/
structure Uniform (carry : Wording → α → α) (reader : Nat → Reader α) : Prop where
  mirrors : ∀ (f : Rewording) (fuel fuel' n : Nat), 8 * n + 3 ≤ fuel → 8 * n + 3 ≤ fuel' →
    Mirrors f n false (fun a b => b = carry f.toWording a) (reader fuel) (reader fuel')
  finishes : ∀ fuel cursor a stop, 8 * cursor.left + 3 ≤ fuel → cursor.Ended →
    reader fuel cursor = .ok a stop → stop.current.kind = .eof

def Finishes (token : Token) (reader : Reader α) : Prop :=
  ∀ cursor a stop, cursor.current = token → reader cursor = .ok a stop → stop.current.kind = .eof

theorem Finishes.peek {token : Token} {next : Token → Reader α} (rest : Finishes token (next token)) :
    Finishes token (peek >>= next) :=
  fun cursor a stop isToken ran => rest cursor a stop isToken (isToken ▸ ran)

theorem Finishes.declarations : ∀ (fuel : Nat) (stmts : Array PStmt) (token : Token),
    Finishes token (declarations fuel stmts)
  | 0, _, _ => by rintro _ _ _ _ ⟨⟩
  | fuel + 1, stmts, token => by
    have more (reader : Reader PStmt) :
        Finishes token (reader >>= fun stmt => Reader.declarations fuel (stmts.push stmt)) := by
      intro cursor found stop _ ran
      obtain ⟨stmt, later, -, ran⟩ := bind_eq_ok.mp ran
      exact declarations fuel _ later.current later found stop rfl ran
    rw [Reader.declarations]
    refine peek ?_
    split
    · exact more _
    · exact more _
    · rename_i isEnd
      rintro cursor found stop rfl ⟨⟩
      exact isEnd
    · rintro _ _ _ _ ⟨⟩

theorem Uniform.module :
    Uniform (fun w => Module.carry w.parsed) fun fuel => Module.mk <$> declarations fuel #[] where
  mirrors f fuel fuel' n low low' := by
    have reads := Mirrors.declarations (f := f) fuel fuel' n #[] (by omega) (by omega)
    rw [Array.map_empty] at reads
    refine Mirrors.bind reads fun stmts _ areStmts => .pure ?_
    subst areStmts
    simp [Module.carry]
  finishes fuel cursor m stop _ _ ran := by
    obtain ⟨stmts, between, read, made⟩ := bind_eq_ok.mp ran
    cases made
    exact Finishes.declarations fuel #[] _ cursor stmts stop rfl read

theorem Uniform.expression :
    Uniform (fun w => Expr.carry w.parsed) fun fuel => expr fuel <* expect .eof where
  mirrors f fuel fuel' n low low' := by
    simp only [seqLeft_eq_bind]
    refine (Mirrors.expr fuel fuel' n low low').weaken.bind fun e _ isExpr => ?_
    exact Mirrors.expect_eof.bind fun _ _ _ => .pure isExpr
  finishes fuel cursor e stop low ended ran := by
    rw [seqLeft_eq_bind] at ran
    obtain ⟨e', between, read, ran⟩ := bind_eq_ok.mp ran
    obtain ⟨token, later, expected, made⟩ := bind_eq_ok.mp ran
    have agree := Mirrors.expr fuel fuel cursor.left low low cursor cursor (.refl cursor) ended
      (Nat.le_refl _)
    rw [read] at agree
    rw [expect_eq] at expected
    split at expected
    case isFalse => cases expected
    case isTrue isEnd =>
      cases made
      cases expected
      cases agree with
      | ok _ _ ended' =>
        have ahead := (List.cons.inj (ended'.tokens_eq isEnd)).2
        rwa [Cursor.step_eq_self ahead]

def kept : EStateM.Result (Located ParseError) Cursor α →
    Except (Located ParseError) α × NameTable
  | .ok value cursor => (.ok value, cursor.names)
  | .error error cursor => (.error error, cursor.names)

namespace Uniform

variable {carry : Wording → α → α} {reader : Nat → Reader α} (uniform : Uniform carry reader)

include uniform

theorem agree {f : Rewording} {cursor cursor' : Cursor} (mirrors : cursor.Mirrors f cursor')
    (ended : cursor.Ended) {fuel fuel' : Nat} (low : 8 * cursor.left + 3 ≤ fuel)
    (low' : 8 * cursor.left + 3 ≤ fuel') :
    (kept (reader fuel' cursor')).1 = ((kept (reader fuel cursor)).1.map
        (carry f.toWording)).mapError (Located.relocate f.place) ∧
      ∃ learned, (kept (reader fuel cursor)).2 = cursor.names.insertAll learned ∧
        (kept (reader fuel' cursor')).2 = cursor'.names.insertAll (learned.map f.name) ∧
        ∀ a, (kept (reader fuel cursor)).1 = .ok a → ∀ token ∈ cursor.tokens,
          token.kind = .identifier → token.text ∈ learned := by
  have finishes := uniform.finishes fuel cursor
  have agree := uniform.mirrors f fuel fuel' cursor.left low low' cursor cursor' mirrors ended
    (Nat.le_refl _)
  generalize reader fuel cursor = result at agree finishes ⊢
  generalize reader fuel' cursor' = result' at agree ⊢
  cases agree with
  | error learns =>
    obtain ⟨learned, names, names', -⟩ := learns
    exact ⟨rfl, learned, names, names', by simp [kept]⟩
  | @ok a b stop _ isMoved _ ended' _ learns =>
    subst isMoved
    obtain ⟨learned, names, names', passed⟩ := learns
    refine ⟨rfl, learned, names, names', fun _ _ token member isName => ?_⟩
    have isEnd := finishes a stop low ended rfl
    rcases passed token member isName with left | isLearned
    · rw [ended'.tokens_eq isEnd, List.mem_singleton] at left
      rw [← left, isName] at isEnd
      cases isEnd
    · exact isLearned

/-- Names that the tokens do not have do not matter. -/
theorem carry_congr {cursor : Cursor} {fuel : Nat} {a : α} (ended : cursor.Ended)
    (low : 8 * cursor.left + 3 ≤ fuel) (ran : (kept (reader fuel cursor)).1 = .ok a)
    {spell spell' : String → String} (same : ∀ token ∈ cursor.tokens, token.kind = .identifier →
      spell token.text = spell' token.text) :
    carry (.ofName spell) a = carry (.ofName spell') a := by
  have here := (uniform.agree (cursor.mirrors_reword spell) ended low low).1
  have there := (uniform.agree (cursor.mirrors_reword spell') ended low low).1
  rw [ran] at here there
  rw [Cursor.reword_congr same] at here
  exact Except.ok.inj (here.symm.trans there)

end Uniform

end Reader

theorem Cursor.ofTokens_eq {tokens : List Token} (ended : Token.Ended tokens) (names : NameTable) :
    ∃ first rest, Token.solid tokens = first :: rest ∧
      ofTokens tokens names = ⟨first, rest, names⟩ ∧ (ofTokens tokens names).Ended := by
  have ended := ended.solid
  cases split : Token.solid tokens with
  | nil =>
    obtain ⟨others, last, whole, -⟩ := ended
    simp [split] at whole
  | cons first rest =>
    have start : ofTokens tokens names = ⟨first, rest, names⟩ := by
      rw [ofTokens, show tokens.filter _ = _ from split]
    exact ⟨first, rest, rfl, start, by rw [start, Ended, Cursor.tokens, ← split]; exact ended⟩

theorem Cursor.ofTokens_left (tokens : List Token) (names : NameTable) :
    8 * (ofTokens tokens names).left + 3 ≤ 8 * tokens.length + 16 := by
  have fewer : (Token.solid tokens).length ≤ tokens.length := List.length_filter_le _ _
  rw [ofTokens, show tokens.filter _ = Token.solid tokens from rfl]
  cases split : Token.solid tokens with
  | nil => exact Nat.le_add_left 3 _
  | cons first rest =>
    rw [split, List.length_cons] at fewer
    change 8 * rest.length + 3 ≤ _
    omega

theorem parseWith_eq_kept {α : Type} {reader : Nat → Reader α} {source : String}
    (clean : ∀ token ∈ Token.scan source, token.kind.isError = false) (names : NameTable) :
    parseWith reader source names = Reader.kept (reader (8 * (Token.scan source).length + 16)
      (Cursor.ofTokens (Token.scan source) names.register)) := by
  have none : (Token.scan source).find? (fun token => token.kind.isError) = none := by
    simpa using clean
  rw [parseWith, none]
  dsimp only
  cases reader _ _ <;> rfl

theorem Reader.Uniform.parseWith_names {α : Type} {carry : Wording → α → α}
    {reader : Nat → Reader α} (uniform : Uniform carry reader)
    (stays : ∀ a, carry (.ofName id) a = a) (source : String) (names names' : NameTable) :
    (parseWith reader source names').1 = (parseWith reader source names).1 ∧
      ∃ learned, (parseWith reader source names).2 = names.register.insertAll learned ∧
        (parseWith reader source names').2 = names'.register.insertAll learned ∧
        ∀ a, (parseWith reader source names).1 = .ok a → ∀ spell spell' : String → String,
          (∀ name ∈ learned, spell name = spell' name) →
          carry (.ofName spell) a = carry (.ofName spell') a := by
  cases found : (Token.scan source).find? fun token => token.kind.isError with
  | some bad =>
    rw [parseWith, parseWith, found]
    exact ⟨rfl, [], rfl, rfl, by simp⟩
  | none =>
    have clean : ∀ token ∈ Token.scan source, token.kind.isError = false := by
      simpa using found
    obtain ⟨first, rest, split, start, ended⟩ :=
      Cursor.ofTokens_eq (Token.scan_cuts source).ended names.register
    obtain ⟨first', rest', split', start', -⟩ :=
      Cursor.ofTokens_eq (Token.scan_cuts source).ended names'.register
    obtain ⟨rfl, rfl⟩ := List.cons.inj (split.symm.trans split')
    have mirrors : (Cursor.ofTokens (Token.scan source) names.register).Mirrors (.ofName id)
        (Cursor.ofTokens (Token.scan source) names'.register) := by
      rw [start, start']
      have itself := Cursor.Mirrors.refl ⟨first, rest, names⟩
      exact ⟨itself.current, itself.ahead⟩
    have enough := Cursor.ofTokens_left (Token.scan source) names.register
    obtain ⟨result, learned, names₁, names₂, passed⟩ := uniform.agree mirrors ended enough enough
    rw [parseWith_eq_kept clean, parseWith_eq_kept clean, result]
    refine ⟨?_, learned, ?_, ?_, fun a ran spell spell' same => ?_⟩
    · generalize (Reader.kept (reader _ (Cursor.ofTokens _ names.register))).1 = outcome
      cases outcome with
      | ok a => exact congrArg Except.ok (stays a)
      | error error => rfl
    · rw [names₁, Cursor.ofTokens_names]
    · rw [names₂, Cursor.ofTokens_names]
      exact congrArg _ (List.map_id learned)
    · exact uniform.carry_congr ended enough ran fun token member isName =>
        same token.text (passed a ran token member isName)

theorem parseModule_names (source : String) (names names' : NameTable) :
    (parseModule source names').1 = (parseModule source names).1 ∧
      ∃ learned, (parseModule source names).2 = names.register.insertAll learned ∧
        (parseModule source names').2 = names'.register.insertAll learned ∧
        ∀ m, (parseModule source names).1 = .ok m → ∀ spell spell' : String → String,
          (∀ name ∈ learned, spell name = spell' name) →
          m.carry (Wording.ofName spell).parsed = m.carry (Wording.ofName spell').parsed :=
  Reader.Uniform.module.parseWith_names
    (fun _ => Module.relocate_eq_self fun _ _ => rfl) source names names'

theorem parseExpr_names (source : String) (names names' : NameTable) :
    (parseExpr source names').1 = (parseExpr source names).1 ∧
      ∃ learned, (parseExpr source names).2 = names.register.insertAll learned ∧
        (parseExpr source names').2 = names'.register.insertAll learned ∧
        ∀ e, (parseExpr source names).1 = .ok e → ∀ spell spell' : String → String,
          (∀ name ∈ learned, spell name = spell' name) →
          e.carry (Wording.ofName spell).parsed = e.carry (Wording.ofName spell').parsed :=
  Reader.Uniform.expression.parseWith_names (fun e => e.relocate_id) source names names'

theorem mainName?_parseModule (source : String) :
    (parseModule source .empty).2.mainName? = some "Main" := by
  obtain ⟨-, learned, names, -⟩ := parseModule_names source .empty .empty
  rw [names]
  exact NameTable.name?_insertAll learned NameTable.mainName?_register

end LetChain
