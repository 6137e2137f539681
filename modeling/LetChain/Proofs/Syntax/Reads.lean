import LetChain.Proofs.Syntax.Rendered

/-! What a reader takes when it stands before given words: a rule for each of the steps from which
the grammar is built. -/

namespace LetChain

namespace Word

def headKind : List Word → TokenKind
  | [] => .eof
  | word :: _ => word.kind

@[simp] theorem headKind_cons (word : Word) (words : List Word) :
    headKind (word :: words) = word.kind := rfl

@[simp] theorem headKind_parens (words after : List Word) :
    headKind (parens words ++ after) = .leftParen := rfl

@[simp] theorem headKind_braces (words after : List Word) :
    headKind (braces words ++ after) = .leftBrace := rfl

@[simp] theorem of_kind (kind : TokenKind) : (of kind).kind = kind := rfl

@[simp] theorem name_kind (text : String) : (name text).kind = .identifier := rfl

end Word

namespace Cursor

def Faces (cursor : Cursor) (words : List Word) : Prop :=
  (cursor.current :: cursor.ahead).map Token.word = words ++ [Word.final]

variable {cursor : Cursor} {word : Word} {words : List Word}

theorem Faces.headKind (faces : cursor.Faces words) :
    cursor.current.kind = Word.headKind words := by
  cases words with
  | nil => exact congrArg Word.kind (List.cons.inj faces).1
  | cons word words => exact congrArg Word.kind (List.cons.inj faces).1

theorem Faces.step (faces : cursor.Faces (word :: words)) :
    cursor.current.word = word ∧ cursor.step.Faces words := by
  obtain ⟨current, ahead, names⟩ := cursor
  obtain ⟨isWord, rest⟩ := List.cons.inj faces
  refine ⟨isWord, ?_⟩
  cases ahead with
  | nil => simp at rest
  | cons next ahead => exact rest

theorem Faces.nextKind (faces : cursor.Faces words) :
    cursor.nextKind = Word.headKind words.tail := by
  obtain ⟨current, ahead, names⟩ := cursor
  cases words with
  | nil =>
    have rest : ahead.map Token.word = [] := (List.cons.inj faces).2
    rw [List.map_eq_nil_iff.mp rest]
    rfl
  | cons word words =>
    have rest : ahead.map Token.word = words ++ [Word.final] := (List.cons.inj faces).2
    cases ahead with
    | nil => simp at rest
    | cons next ahead =>
      have faces : Cursor.Faces ⟨next, ahead, names⟩ words := rest
      exact faces.headKind

end Cursor

namespace Reader

variable {α β : Type}

/-- Before these words and what comes after them, the reader takes just the words, and what it
gives is good. -/
def Reads (reader : Reader α) (words after : List Word) (good : α → Prop) : Prop :=
  ∀ cursor : Cursor, cursor.Faces (words ++ after) →
    ∃ a cursor', reader cursor = .ok a cursor' ∧ cursor'.Faces after ∧ good a

namespace Reads

variable {reader : Reader α} {next : α → Reader β} {words more after : List Word} {word : Word}
  {kind : TokenKind} {good : α → Prop} {good' : β → Prop}

theorem pure {a : α} (isGood : good a) : Reads (Pure.pure a) [] after good :=
  fun cursor faces => ⟨a, cursor, rfl, faces, isGood⟩

theorem bind (first : Reads reader words (more ++ after) good)
    (rest : ∀ a, good a → Reads (next a) more after good') :
    Reads (reader >>= next) (words ++ more) after good' := by
  intro cursor faces
  rw [List.append_assoc] at faces
  obtain ⟨a, cursor', ran, faces', isGood⟩ := first cursor faces
  obtain ⟨b, cursor'', ran', faces'', isGood'⟩ := rest a isGood cursor' faces'
  refine ⟨b, cursor'', ?_, faces'', isGood'⟩
  change EStateM.bind reader next cursor = _
  rw [EStateM.bind, ran]
  exact ran'

theorem last (first : Reads reader words after good)
    (rest : ∀ a, good a → Reads (next a) [] after good') :
    Reads (reader >>= next) words after good' := by
  rw [← List.append_nil words]
  exact bind first rest

theorem look (first : Reads reader [] (words ++ after) good)
    (rest : ∀ a, good a → Reads (next a) words after good') :
    Reads (reader >>= next) words after good' := bind first rest

theorem map (reads : Reads reader words after good) {f : α → β} (maps : ∀ a, good a → good' (f a)) :
    Reads (f <$> reader) words after good' :=
  reads.last fun a isGood => pure (maps a isGood)

theorem mono (reads : Reads reader words after good) {good' : α → Prop}
    (implies : ∀ a, good a → good' a) : Reads reader words after good' := by
  intro cursor faces
  obtain ⟨a, cursor', ran, faces', isGood⟩ := reads cursor faces
  exact ⟨a, cursor', ran, faces', implies a isGood⟩

theorem peek_bind {next : Token → Reader β}
    (rest : ∀ token, token.word = word → Reads (next token) (word :: words) after good') :
    Reads (peek >>= next) (word :: words) after good' := by
  intro cursor faces
  exact rest cursor.current faces.step.1 cursor faces

theorem peek_kind {next : Token → Reader β}
    (rest : ∀ token, token.kind = Word.headKind (words ++ after) →
      Reads (next token) words after good') : Reads (peek >>= next) words after good' := by
  intro cursor faces
  exact rest cursor.current faces.headKind cursor faces

theorem advance_bind {next : Token → Reader β}
    (rest : ∀ token, token.word = word → Reads (next token) words after good') :
    Reads (advance >>= next) (word :: words) after good' := by
  intro cursor faces
  exact rest cursor.current faces.step.1 cursor.step faces.step.2

section Choices

variable {yes no : Reader β}

theorem isAt_yes (here : Word.headKind (words ++ after) = kind)
    (rest : Reads yes words after good') :
    Reads (isAt kind >>= fun found => if found = true then yes else no) words after good' := by
  intro cursor faces
  obtain ⟨b, cursor', ran, result⟩ := rest cursor faces
  refine ⟨b, cursor', ?_, result⟩
  change (if decide (cursor.current.kind = kind) = true then yes else no) cursor = _
  rw [if_pos (decide_eq_true (faces.headKind.trans here))]
  exact ran

theorem isAt_no (elsewhere : Word.headKind (words ++ after) ≠ kind)
    (rest : Reads no words after good') :
    Reads (isAt kind >>= fun found => if found = true then yes else no) words after good' := by
  intro cursor faces
  obtain ⟨b, cursor', ran, result⟩ := rest cursor faces
  refine ⟨b, cursor', ?_, result⟩
  change (if decide (cursor.current.kind = kind) = true then yes else no) cursor = _
  rw [← faces.headKind] at elsewhere
  rw [if_neg (by simpa using elsewhere)]
  exact ran

theorem take_yes (isKind : word.kind = kind) (rest : Reads yes words after good') :
    Reads (take kind >>= fun taken => if taken = true then yes else no) (word :: words) after
      good' := by
  have taken : Reads (take kind) [word] (words ++ after) (· = true) :=
    isAt_yes isKind (advance_bind fun _ _ => pure rfl)
  refine taken.bind fun _ isTrue => ?_
  rwa [if_pos isTrue]

theorem take_no (other : Word.headKind (words ++ after) ≠ kind)
    (rest : Reads no words after good') :
    Reads (take kind >>= fun taken => if taken = true then yes else no) words after good' := by
  have left : Reads (take kind) [] (words ++ after) (· = false) := isAt_no other (pure rfl)
  refine left.look fun _ isFalse => ?_
  rwa [if_neg (by simp [isFalse])]

end Choices

theorem expect_bind {next : Token → Reader β} (isKind : word.kind = kind)
    (rest : ∀ token, token.word = word → Reads (next token) words after good') :
    Reads (expect kind >>= next) (word :: words) after good' := by
  have expected : Reads (expect kind) [word] (words ++ after) fun token => token.word = word := by
    refine peek_bind fun token isWord => ?_
    have current : token.kind = kind := (congrArg Word.kind isWord).trans isKind
    rw [if_pos current]
    intro cursor faces
    exact ⟨cursor.current, cursor.step, rfl, faces.step.2, faces.step.1⟩
  exact expected.bind rest

theorem ident_bind {next : Ident → Reader β} {text : String}
    (rest : ∀ name : Ident, name.text = text → Reads (next name) words after good') :
    Reads (ident >>= next) (.name text :: words) after good' := by
  have named : Reads ident [.name text] (words ++ after) fun name => name.text = text := by
    refine expect_bind rfl fun token isWord => ?_
    intro cursor faces
    exact ⟨_, cursor.learn token.text, rfl, faces, congrArg Word.text isWord⟩
  exact named.bind rest

theorem get_bind {next : Cursor → Reader β}
    (rest : ∀ cursor : Cursor, cursor.Faces (words ++ after) →
      Reads (next cursor) words after good') :
    Reads (get >>= next) words after good' := by
  intro cursor faces
  exact rest cursor faces cursor faces

/-- Items are told from the mark that closes them by how they start. The induction is on the items;
`done` holds those before them. -/
theorem separated {item : Reader α} {close : TokenKind} {write : α → List Word} {bare : α → α}
    (closes : close ≠ .comma) : ∀ (items : List α) (fuel : Nat) (done : Array α),
    items.length < fuel →
    (∀ x ∈ items, ∀ following, Word.headKind (write x ++ following) ≠ close) →
    (∀ x ∈ items, ∀ following,
      Word.headKind following = .comma ∨ Word.headKind following = close →
        Reads item (write x) following fun read => bare read = bare x) →
    Word.headKind after = close →
    Reads (separated close item fuel done) (Word.listed (items.map write)) after
      fun read => read.map bare = (done.toList ++ items).map bare
  | [], fuel + 1, done, _, _, _, closed => isAt_yes closed (pure (by simp))
  | x :: rest, fuel + 1, done, enough, starts, reads, closed => by
    have start := starts x (by simp)
    have read := reads x (by simp)
    cases rest with
    | nil =>
      have only : Word.listed ([x].map write) = write x := by simp [Word.listed]
      rw [only]
      refine isAt_no (start after) ((read after (.inr closed)).last fun value isValue => ?_)
      refine take_no (by simpa [closed] using closes) (isAt_yes closed (pure ?_))
      simp [isValue]
    | cons next rest =>
      rw [List.map_cons, List.map_cons, Word.listed_cons_cons, ← List.map_cons]
      refine isAt_no (by simpa using start _) ((read _ (.inl rfl)).bind fun value isValue => ?_)
      have later := separated closes (next :: rest) fuel (done.push value)
        (by simpa using enough) (fun y member => starts y (by simp [member]))
        (fun y member => reads y (by simp [member])) closed
      refine take_yes rfl (later.mono fun values areValues => ?_)
      simpa [isValue] using areValues

theorem list {item : Reader α} {close : TokenKind} {write : α → List Word} {fuel : Nat}
    (bare : α → α) (items : List α) (closes : close ≠ .comma)
    (enough : 8 * (Word.listed (items.map write)).length + 8 ≤ fuel)
    (starts : ∀ x ∈ items, ∀ following, Word.headKind (write x ++ following) ≠ close)
    (reads : ∀ x ∈ items, ∀ following, 8 * (write x).length ≤ fuel →
      Word.headKind following = .comma ∨ Word.headKind following = close →
        Reads item (write x) following fun read => bare read = bare x) :
    Reads (Reader.separated close item fuel #[]) (Word.listed (items.map write))
      (.of close :: after) fun read => read.map bare = items.map bare := by
  have bounds := Word.length_le_listed (items.map write)
  simp only [List.length_map, List.forall_mem_map] at bounds
  refine separated closes items fuel #[] (by omega) starts ?_ rfl
  intro x member following follows
  have bound := bounds.2 x member
  exact reads x member following (by omega) follows

end Reads

end Reader

end LetChain
