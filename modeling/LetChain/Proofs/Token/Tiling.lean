import Mathlib
import LetChain.Token.Scan

/-! The tokens of a source lie side by side. Each takes up some characters from where the one before
it stopped, and only the last may take up none. -/

namespace LetChain

/-! ### Characters of the first token -/

namespace Lexeme

theorem number_split (c : Char) (rest : List Char) :
    (number c rest).chars ++ (number c rest).rest = c :: rest := by
  have whole := List.takeWhile_append_dropWhile (p := Char.isDigit) (l := rest)
  unfold number
  split
  next digit after found =>
    rw [found] at whole
    split
    · simpa [List.takeWhile_append_dropWhile] using whole
    · simpa using whole
  next => simp [whole]

theorem string_split (c : Char) (rest : List Char) :
    (string c rest).chars ++ (string c rest).rest = c :: rest := by
  have whole := List.takeWhile_append_dropWhile
    (p := fun c : Char => c != '"' && c != '\x00') (l := rest)
  unfold string
  simp only
  split
  next found =>
    rw [found] at whole
    simpa using whole
  next stop after found =>
    rw [found] at whole
    simpa using whole

theorem minus_split (c : Char) (rest : List Char) :
    (minus c rest).chars ++ (minus c rest).rest = c :: rest := by
  unfold minus
  split <;> rfl

theorem slash_split (c : Char) (rest : List Char) :
    (slash c rest).chars ++ (slash c rest).rest = c :: rest := by
  unfold slash
  split
  · simp [List.takeWhile_append_dropWhile]
  · rfl

theorem first_split (cs : List Char) : (first cs).chars ++ (first cs).rest = cs := by
  cases cs with
  | nil => rfl
  | cons c rest =>
    change (startingWith c rest).chars ++ (startingWith c rest).rest = c :: rest
    unfold startingWith
    repeat' split
    · rfl
    · exact minus_split c rest
    · exact slash_split c rest
    · exact string_split c rest
    · rfl
    · simp [word, List.takeWhile_append_dropWhile]
    · exact number_split c rest
    · simp [run, List.takeWhile_append_dropWhile]
    · rfl

theorem keyword_ne_eof (text : String) :
    (TokenKind.keyword? text).getD .identifier ≠ .eof := by
  unfold TokenKind.keyword?
  split <;> simp

theorem mark_ne_eof (c : Char) : TokenKind.mark? c ≠ some .eof := by
  unfold TokenKind.mark?
  repeat' refine iteInduction (motive := (· ≠ some TokenKind.eof)) (fun _ => ?_) fun _ => ?_
  all_goals nofun

theorem startingWith_kind_eof {c : Char} {rest : List Char} :
    (startingWith c rest).kind = .eof ↔ c = '\x00' := by
  constructor
  · intro isEnd
    unfold startingWith at isEnd
    repeat' split at isEnd
    · assumption
    · unfold minus at isEnd
      split at isEnd <;> cases isEnd
    · unfold slash at isEnd
      split at isEnd <;> cases isEnd
    · unfold string at isEnd
      simp only at isEnd
      repeat' split at isEnd
      all_goals cases isEnd
    · rename_i kind found
      exact absurd (isEnd ▸ found) (mark_ne_eof c)
    · exact absurd isEnd (keyword_ne_eof _)
    · unfold number at isEnd
      repeat' split at isEnd
      all_goals cases isEnd
    · cases isEnd
    · cases isEnd
  · rintro rfl
    rfl

theorem first_eof {cs chars rest : List Char} (isEnd : first cs = ⟨.eof, chars, rest⟩) :
    (cs = [] ∧ chars = []) ∨ chars = ['\x00'] := by
  cases cs with
  | nil =>
    left
    exact ⟨rfl, (congrArg Lexeme.chars isEnd).symm⟩
  | cons c rest' =>
    right
    obtain rfl : c = '\x00' := startingWith_kind_eof.mp (congrArg Lexeme.kind isEnd)
    exact (congrArg Lexeme.chars isEnd).symm

theorem startingWith_chars_head (c : Char) (rest : List Char) :
    ∃ more, (startingWith c rest).chars = c :: more := by
  have whole := first_split (c :: rest)
  change (startingWith c rest).chars ++ (startingWith c rest).rest = c :: rest at whole
  cases chars : (startingWith c rest).chars with
  | nil =>
    have bound := startingWith_rest_length_le c rest
    rw [chars, List.nil_append] at whole
    rw [whole, List.length_cons] at bound
    omega
  | cons d more =>
    rw [chars, List.cons_append] at whole
    exact ⟨more, by rw [(List.cons.inj whole).1]⟩

theorem first_content {cs chars rest : List Char} {kind : TokenKind}
    (taken : first cs = ⟨kind, chars, rest⟩) (more : kind ≠ .eof) :
    ∃ c others, chars = c :: others ∧ c ≠ '\x00' := by
  cases cs with
  | nil => exact absurd (congrArg Lexeme.kind taken).symm more
  | cons c rest' =>
    obtain ⟨others, isHead⟩ := startingWith_chars_head c rest'
    refine ⟨c, others, ?_, ?_⟩
    · rw [← isHead]
      exact (congrArg Lexeme.chars taken).symm
    · intro isNul
      exact more ((congrArg Lexeme.kind taken).symm.trans (startingWith_kind_eof.mpr isNul))

end Lexeme

/-! ### Places of texts -/

namespace Text

theorem utf8ByteSize_cons (c : Char) (cs : List Char) :
    (String.ofList (c :: cs)).utf8ByteSize = c.utf8Size + (String.ofList cs).utf8ByteSize := by
  rw [← List.singleton_append, String.ofList_append, String.utf8ByteSize_append]
  simp

theorem takeBytes_size (size : Nat) (cs : List Char) :
    (String.ofList (takeBytes size cs)).utf8ByteSize ≤ size := by
  induction cs generalizing size with
  | nil => simp [takeBytes]
  | cons c rest ih =>
    rw [takeBytes]
    split
    · have rest := ih (size - c.utf8Size)
      rw [utf8ByteSize_cons]
      omega
    · simp

theorem takeBytes_begins (size : Nat) (cs : List Char) : takeBytes size cs <+: cs := by
  induction cs generalizing size with
  | nil => exact List.prefix_rfl
  | cons c rest ih =>
    rw [takeBytes]
    split
    · exact List.cons_prefix_cons.mpr ⟨rfl, ih _⟩
    · exact List.nil_prefix

theorem fit_of_le {size : Nat} {text : String} (fits : text.utf8ByteSize ≤ size) :
    fit size text = text := if_pos fits

theorem fit_size (size : Nat) (text : String) : (fit size text).utf8ByteSize ≤ size := by
  unfold fit
  split
  · assumption
  · exact takeBytes_size ..

theorem fit_begins (size : Nat) (text : String) : (fit size text).toList <+: text.toList := by
  unfold fit
  split
  · exact List.prefix_rfl
  · simpa using takeBytes_begins size text.toList

theorem takeBytes_of_le {size : Nat} {cs : List Char}
    (fits : (String.ofList cs).utf8ByteSize ≤ size) : takeBytes size cs = cs := by
  induction cs generalizing size with
  | nil => rfl
  | cons c rest ih =>
    rw [utf8ByteSize_cons] at fits
    rw [takeBytes, if_pos (by omega), ih (by omega)]

theorem takeBytes_append {size : Nat} {cs : List Char}
    (covers : size ≤ (String.ofList cs).utf8ByteSize) (after : List Char) :
    takeBytes size (cs ++ after) = takeBytes size cs := by
  induction cs generalizing size with
  | nil =>
    obtain rfl : size = 0 := by simpa using covers
    cases after with
    | nil => rfl
    | cons c after =>
      have pos := c.utf8Size_pos
      change (if c.utf8Size ≤ 0 then _ else []) = []
      rw [if_neg (by omega)]
  | cons c rest ih =>
    rw [utf8ByteSize_cons] at covers
    rw [List.cons_append, takeBytes, takeBytes, ih (by omega)]

theorem fit_eq (size : Nat) (text : String) :
    fit size text = String.ofList (takeBytes size text.toList) := by
  unfold fit
  split
  · rw [takeBytes_of_le (by simpa), String.ofList_toList]
  · rfl

theorem splitBytes?_append (inner rest taken : List Char) (size : Nat) :
    splitBytes? ((String.ofList inner).utf8ByteSize + size) taken (inner ++ rest) =
      splitBytes? size (inner.reverse ++ taken) rest := by
  induction inner generalizing taken with
  | nil => simp
  | cons c inner ih =>
    have pos := c.utf8Size_pos
    rw [utf8ByteSize_cons, List.cons_append, splitBytes?, if_neg (by omega), if_pos (by omega),
      Nat.add_assoc, Nat.add_sub_cancel_left, ih]
    simp

theorem splitBytes?_taken (size : Nat) (taken cs : List Char) :
    splitBytes? size taken cs =
      (splitBytes? size [] cs).map fun (inner, rest) => (taken.reverse ++ inner, rest) := by
  induction cs generalizing size taken with
  | nil => simp only [splitBytes?]; split <;> simp
  | cons c rest ih =>
    simp only [splitBytes?]
    split
    · simp
    · split
      · rw [ih, ih _ [c]]
        simp [Function.comp_def]
      · rfl

theorem splitBytes?_takeBytes {size bound : Nat} (le : size ≤ bound) (taken cs : List Char) :
    splitBytes? size taken (takeBytes bound cs) =
      (splitBytes? size taken cs).map fun (inner, rest) => (inner, takeBytes (bound - size) rest) := by
  induction cs generalizing size bound taken with
  | nil => simp only [takeBytes, splitBytes?]; split <;> simp [takeBytes]
  | cons c rest ih =>
    have pos := c.utf8Size_pos
    by_cases none : size = 0
    · subst none
      cases kept : takeBytes bound (c :: rest) <;> simp [splitBytes?, kept]
    · by_cases inside : c.utf8Size ≤ size
      · rw [takeBytes, if_pos (by omega), splitBytes?, splitBytes?, if_neg none, if_pos inside,
          if_neg none, if_pos inside, ih (by omega)]
        rw [show bound - c.utf8Size - (size - c.utf8Size) = bound - size by omega]
      · rw [takeBytes, splitBytes?, if_neg none, if_neg inside]
        split
        · rw [splitBytes?, if_neg none, if_neg inside]
          rfl
        · rw [splitBytes?, if_neg none]
          rfl

theorem slice?_append (before text : String) (lo hi : Nat) :
    slice? (before ++ text) (before.utf8ByteSize + lo) (before.utf8ByteSize + hi) =
      slice? text lo hi := by
  have skipped := splitBytes?_append before.toList text.toList [] lo
  rw [String.ofList_toList, splitBytes?_taken lo] at skipped
  rw [slice?, slice?, String.toList_append, skipped, Nat.add_sub_add_left]
  cases splitBytes? lo [] text.toList <;> rfl

theorem slice?_fit {lo hi size : Nat} {text : String} (lower : lo ≤ hi) (upper : hi ≤ size)
    (covers : size ≤ text.utf8ByteSize) (after : String) :
    slice? (fit size text) lo hi = slice? (text ++ after) lo hi := by
  have kept : (fit size text).toList = takeBytes size (text ++ after).toList := by
    rw [fit_eq, String.toList_ofList, String.toList_append, takeBytes_append (by simpa)]
  rw [slice?, slice?, kept, splitBytes?_takeBytes (by omega)]
  cases splitBytes? lo [] (text ++ after).toList with
  | none => rfl
  | some parts =>
    change (splitBytes? (hi - lo) [] (takeBytes (size - lo) parts.2) >>= _) =
      (splitBytes? (hi - lo) [] parts.2 >>= _)
    rw [splitBytes?_takeBytes (by omega)]
    cases splitBytes? (hi - lo) [] parts.2 <;> rfl

theorem slice?_self (text : String) : slice? text 0 text.utf8ByteSize = some text := by
  have whole := splitBytes?_append text.toList [] [] 0
  have none : splitBytes? 0 [] text.toList = some ([], text.toList) := by
    cases text.toList <;> rfl
  have whole : splitBytes? text.utf8ByteSize [] text.toList = some (text.toList, []) := by
    simpa [splitBytes?] using whole
  rw [slice?, none]
  simp [whole]

end Text

namespace Span

def Marks (span : Span) (source text : String) : Prop :=
  ∃ before after, source = before ++ text ++ after ∧
    span.lo = before.utf8ByteSize ∧ span.length = text.utf8ByteSize

variable {span : Span} {source text : String}

theorem Marks.slice (marks : span.Marks source text) : span.slice? source = some text := by
  obtain ⟨before, after, rfl, lo, length⟩ := marks
  have inner := Text.slice?_fit (Nat.zero_le _) (Nat.le_refl text.utf8ByteSize) (Nat.le_refl _) after
  rw [Text.fit_of_le (Nat.le_refl _), Text.slice?_self] at inner
  rw [slice?, hi, lo, length, String.append_assoc]
  exact (Text.slice?_append before _ 0 _).trans inner.symm

theorem Marks.lo_isValid (marks : span.Marks source text) :
    (⟨span.lo⟩ : String.Pos.Raw).IsValid source := by
  obtain ⟨before, after, rfl, lo, length⟩ := marks
  refine String.Pos.Raw.isValid_iff_exists_append.mpr ⟨before, text ++ after, ?_, ?_⟩
  · rw [String.append_assoc]
  · rw [lo]
    rfl

theorem Marks.hi_isValid (marks : span.Marks source text) :
    (⟨span.hi⟩ : String.Pos.Raw).IsValid source := by
  obtain ⟨before, after, rfl, lo, length⟩ := marks
  refine String.Pos.Raw.isValid_iff_exists_append.mpr ⟨before ++ text, after, rfl, ?_⟩
  rw [hi, lo, length, ← String.utf8ByteSize_append]
  rfl

theorem Marks.hi_le (marks : span.Marks source text) : span.hi ≤ source.utf8ByteSize := by
  obtain ⟨before, after, rfl, lo, length⟩ := marks
  simp only [hi, String.utf8ByteSize_append]
  omega

end Span

/-! ### Tokens one after another -/

namespace Token

def Ended (tokens : List Token) : Prop :=
  ∃ others last, tokens = others ++ [last] ∧ last.kind = .eof ∧
    ∀ token ∈ others, token.kind ≠ .eof

theorem Ended.cons {token : Token} {tokens : List Token} (ended : Ended tokens)
    (more : token.kind ≠ .eof) : Ended (token :: tokens) := by
  obtain ⟨others, last, rfl, isEnd, content⟩ := ended
  exact ⟨token :: others, last, rfl, isEnd, by simpa using ⟨more, content⟩⟩

def solid (tokens : List Token) : List Token :=
  tokens.filter fun token => !token.kind.isTrivia

theorem Ended.solid {tokens : List Token} (ended : Ended tokens) : Ended (solid tokens) := by
  obtain ⟨others, last, rfl, isEnd, content⟩ := ended
  refine ⟨Token.solid others, last, ?_, isEnd, ?_⟩
  · simp [Token.solid, isEnd, TokenKind.isTrivia]
  · intro token member
    exact content token (List.mem_filter.mp member).1

/-- The token stands for `lexeme`, the first one of `cs`, which is what the source holds after
`before`. -/
structure Heads (source before : String) (cs : List Char) (lexeme : String) (token : Token)
    (rest : List Char) : Prop where
  whole : source = before ++ String.ofList cs
  first : Lexeme.first cs = ⟨token.kind, lexeme.toList, rest⟩
  span : token.span = Span.ofBounds before.utf8ByteSize (before ++ lexeme).utf8ByteSize
  text : token.text = Text.fit token.span.length lexeme

inductive Cuts (source : String) : String → List Char → List Token → Prop
  | last {before lexeme : String} {cs rest : List Char} {token : Token} :
      Heads source before cs lexeme token rest → token.kind = .eof → Cuts source before cs [token]
  | cons {before lexeme : String} {cs rest : List Char} {token : Token} {tokens : List Token} :
      Heads source before cs lexeme token rest → token.kind ≠ .eof →
      Cuts source (before ++ lexeme) rest tokens → Cuts source before cs (token :: tokens)

namespace Heads

variable {source before lexeme : String} {cs rest : List Char} {token : Token}

theorem split (heads : Heads source before cs lexeme token rest) : lexeme.toList ++ rest = cs := by
  have whole := Lexeme.first_split cs
  rw [heads.first] at whole
  exact whole

theorem next (heads : Heads source before cs lexeme token rest) :
    source = before ++ lexeme ++ String.ofList rest := by
  rw [heads.whole, ← heads.split, String.ofList_append, String.ofList_toList, String.append_assoc]

theorem lo (heads : Heads source before cs lexeme token rest) :
    token.span.lo = before.utf8ByteSize := by
  rw [heads.span]
  rfl

theorem length_eq (heads : Heads source before cs lexeme token rest) :
    token.span.length = min lexeme.utf8ByteSize Span.maxLength := by
  simp [heads.span, Span.ofBounds, String.utf8ByteSize_append]

theorem short (heads : Heads source before cs lexeme token rest)
    (fits : source.utf8ByteSize ≤ Span.maxLength) : lexeme.utf8ByteSize ≤ Span.maxLength := by
  rw [heads.next] at fits
  simp only [String.utf8ByteSize_append] at fits
  omega

theorem text_eq (heads : Heads source before cs lexeme token rest)
    (short : lexeme.utf8ByteSize ≤ Span.maxLength) : token.text = lexeme := by
  rw [heads.text, heads.length_eq, Nat.min_eq_left short, Text.fit_of_le (Nat.le_refl _)]

theorem text_size (heads : Heads source before cs lexeme token rest) :
    token.text.utf8ByteSize ≤ Span.maxLength := by
  rw [heads.text]
  exact (Text.fit_size _ _).trans token.span.bounded

theorem length (heads : Heads source before cs lexeme token rest)
    (short : lexeme.utf8ByteSize ≤ Span.maxLength) :
    token.span.length = token.text.utf8ByteSize := by
  rw [heads.length_eq, heads.text_eq short, Nat.min_eq_left short]

theorem marks (heads : Heads source before cs lexeme token rest)
    (short : lexeme.utf8ByteSize ≤ Span.maxLength) : token.span.Marks source token.text :=
  ⟨before, String.ofList rest, by rw [heads.text_eq short, ← heads.next], heads.lo,
    heads.length short⟩

theorem hi (heads : Heads source before cs lexeme token rest)
    (short : lexeme.utf8ByteSize ≤ Span.maxLength) :
    token.span.hi = (before ++ lexeme).utf8ByteSize := by
  rw [Span.hi, heads.lo, heads.length short, heads.text_eq short, String.utf8ByteSize_append]

theorem slice (heads : Heads source before cs lexeme token rest) {lo hi : Nat} (lower : lo ≤ hi)
    (upper : hi ≤ token.span.length) :
    Text.slice? source (token.span.lo + lo) (token.span.lo + hi) = Text.slice? token.text lo hi := by
  have covers : token.span.length ≤ lexeme.utf8ByteSize := by
    rw [heads.length_eq]
    exact Nat.min_le_left _ _
  rw [heads.text, heads.lo, heads.next, String.append_assoc, Text.slice?_append,
    Text.slice?_fit lower upper covers]

theorem content (heads : Heads source before cs lexeme token rest) (more : token.kind ≠ .eof) :
    ∃ c others, lexeme.toList = c :: others ∧ c ≠ '\x00' :=
  Lexeme.first_content heads.first more

theorem ending (heads : Heads source before cs lexeme token rest) (isEnd : token.kind = .eof) :
    (lexeme = "" ∧ token.span.lo = source.utf8ByteSize) ∨ lexeme = "\x00" := by
  have first := heads.first
  rw [isEnd] at first
  rcases Lexeme.first_eof first with ⟨empty, noText⟩ | isNul
  · left
    refine ⟨String.toList_eq_nil_iff.mp noText, ?_⟩
    rw [heads.lo, heads.whole, empty]
    simp
  · right
    rw [← String.ofList_toList (s := lexeme), isNul]

end Heads

/-- The induction is on the characters left, of which every token but the last takes some. -/
theorem scanFrom_cuts {source before : String} {cs : List Char}
    (whole : source = before ++ String.ofList cs) (tokens : Array Token) : ∃ more,
      (scanFrom before.utf8ByteSize cs tokens).toList = tokens.toList ++ more ∧
        Cuts source before cs more := by
  generalize length : cs.length = n
  induction n using Nat.strongRecOn generalizing before cs tokens with
  | ind n ih =>
    cases taken : Lexeme.first cs with
    | mk kind chars rest =>
      let span := Span.ofBounds before.utf8ByteSize (before ++ String.ofList chars).utf8ByteSize
      have heads : Heads source before cs (String.ofList chars)
          ⟨kind, span, Text.fit span.length (String.ofList chars)⟩ rest :=
        ⟨whole, by simpa using taken, rfl, rfl⟩
      rw [scanFrom]
      simp only [taken]
      rw [← String.utf8ByteSize_append]
      by_cases isEnd : kind = .eof
      · rw [dif_neg (by simpa using isEnd)]
        exact ⟨_, Array.toList_push, .last heads isEnd⟩
      · have shorter := Lexeme.first_rest_length_lt cs (by rw [taken]; exact isEnd)
        simp only [taken] at shorter
        rw [dif_pos isEnd]
        obtain ⟨more, scanned, cuts⟩ := ih rest.length (by omega) heads.next
          (tokens.push ⟨kind, span, Text.fit span.length (String.ofList chars)⟩) rfl
        refine ⟨_ :: more, ?_, .cons heads isEnd cuts⟩
        rw [scanned]
        simp

theorem scan_cuts (source : String) : Cuts source "" source.toList (scan source) := by
  have whole : source = "" ++ String.ofList source.toList := by simp
  obtain ⟨more, scanned, cuts⟩ := scanFrom_cuts whole #[]
  rw [scan]
  have scanned : (scanFrom 0 source.toList #[]).toList = more := by simpa using scanned
  rwa [scanned]

namespace Cuts

variable {source before : String} {cs : List Char} {tokens : List Token}

theorem ended (cuts : Cuts source before cs tokens) : Ended tokens := by
  induction cuts with
  | last heads isEnd => exact ⟨[], _, rfl, isEnd, by simp⟩
  | cons heads more _ ih => exact ih.cons more

theorem heads (cuts : Cuts source before cs tokens) {token : Token} (member : token ∈ tokens) :
    ∃ before cs lexeme rest, Heads source before cs lexeme token rest := by
  induction cuts with
  | last heads isEnd =>
    obtain rfl := List.mem_singleton.mp member
    exact ⟨_, _, _, _, heads⟩
  | cons heads more _ ih =>
    rcases List.mem_cons.mp member with rfl | later
    · exact ⟨_, _, _, _, heads⟩
    · exact ih later

theorem head_lo (cuts : Cuts source before cs tokens) :
    ∃ first rest, tokens = first :: rest ∧ first.span.lo = before.utf8ByteSize := by
  cases cuts with
  | last heads isEnd => exact ⟨_, _, rfl, heads.lo⟩
  | cons heads more _ => exact ⟨_, _, rfl, heads.lo⟩

theorem adjacent (cuts : Cuts source before cs tokens)
    (fits : source.utf8ByteSize ≤ Span.maxLength) :
    tokens.IsChain fun token next => token.span.hi = next.span.lo := by
  induction cuts with
  | last heads isEnd => exact .singleton _
  | cons heads more cuts ih =>
    obtain ⟨next, rest, rfl, lo⟩ := cuts.head_lo
    exact .cons_cons ((heads.hi (heads.short fits)).trans lo.symm) ih

theorem joined (cuts : Cuts source before cs tokens)
    (fits : source.utf8ByteSize ≤ Span.maxLength) {others : List Token} {last : Token}
    (ends : tokens = others ++ [last]) :
    ∃ after, source = before ++ String.join (tokens.map Token.text) ++ after ∧
      last.span.hi = (before ++ String.join (tokens.map Token.text)).utf8ByteSize := by
  induction cuts generalizing others with
  | last heads isEnd =>
    obtain rfl : last = _ := by simpa using (congrArg List.getLast? ends).symm
    have short := heads.short fits
    rw [List.map_singleton, heads.text_eq short]
    exact ⟨_, by simpa using heads.next, by simpa using heads.hi short⟩
  | cons heads more cuts ih =>
    cases others with
    | nil =>
      obtain ⟨next, rest, rfl, -⟩ := cuts.head_lo
      simp at ends
    | cons first others =>
      obtain ⟨after, whole, hi⟩ := ih (List.cons.inj ends).2
      rw [List.map_cons, heads.text_eq (heads.short fits)]
      refine ⟨after, ?_, ?_⟩
      · simpa [String.append_assoc] using whole
      · simpa [String.append_assoc] using hi

end Cuts

/-- The tokens cover the source from its start without a gap, each with its own text. The last one,
and only it, is the end: it takes up nothing at the end of the source, or the first NUL with which a
token could begin. -/
structure Tiles (source : String) (tokens others : List Token) (last : Token) : Prop where
  parts : tokens = others ++ [last]
  last_end : last.kind = .eof
  others_content : ∀ token ∈ others, token.kind ≠ .eof ∧ token.span.lo < token.span.hi ∧
    token.text.toList.head? ≠ some '\x00'
  start : (tokens.head?.map fun token => token.span.lo) = some 0
  adjacent : tokens.IsChain fun token next => token.span.hi = next.span.lo
  boundaries : ∀ token ∈ tokens, (⟨token.span.lo⟩ : String.Pos.Raw).IsValid source ∧
    (⟨token.span.hi⟩ : String.Pos.Raw).IsValid source
  texts : ∀ token ∈ tokens, token.span.slice? source = some token.text
  ending : (last.span.lo = source.utf8ByteSize ∧ last.span.hi = source.utf8ByteSize) ∨
    (last.text = "\x00" ∧ last.span.hi = last.span.lo + 1)
  no_nul : '\x00' ∉ source.toList →
    last.span.lo = source.utf8ByteSize ∧ last.span.hi = source.utf8ByteSize
  joined : ∃ after, source = String.join (tokens.map text) ++ after ∧
    (String.join (tokens.map text)).utf8ByteSize = last.span.hi

theorem Heads.ending_bounds {source before lexeme : String} {cs rest : List Char} {token : Token}
    (heads : Heads source before cs lexeme token rest) (fits : source.utf8ByteSize ≤ Span.maxLength)
    (isEnd : token.kind = .eof) :
    (token.span.lo = source.utf8ByteSize ∧ token.span.hi = source.utf8ByteSize) ∨
      (token.text = "\x00" ∧ token.span.hi = token.span.lo + 1) := by
  have length := heads.length (heads.short fits)
  rw [heads.text_eq (heads.short fits)] at length ⊢
  rcases heads.ending isEnd with ⟨empty, lo⟩ | isNul
  · left
    rw [empty] at length
    have none : token.span.length = 0 := length
    rw [Span.hi]
    omega
  · right
    rw [isNul] at length
    exact ⟨isNul, congrArg (token.span.lo + ·) length⟩

theorem Heads.mem_source {source before lexeme : String} {cs rest : List Char} {token : Token}
    (heads : Heads source before cs lexeme token rest) {c : Char} (member : c ∈ token.text.toList) :
    c ∈ source.toList := by
  rw [heads.text] at member
  rw [heads.next]
  simp [String.toList_append, (Text.fit_begins _ _).subset member]

theorem Heads.lo_lt_hi {source before lexeme : String} {cs rest : List Char} {token : Token}
    (heads : Heads source before cs lexeme token rest) (fits : source.utf8ByteSize ≤ Span.maxLength)
    (more : token.kind ≠ .eof) :
    token.span.lo < token.span.hi ∧ token.text.toList.head? ≠ some '\x00' := by
  obtain ⟨c, others, chars, notNul⟩ := heads.content more
  rw [Span.hi, heads.length (heads.short fits), heads.text_eq (heads.short fits)]
  refine ⟨?_, by simpa [chars] using notNul⟩
  have size : 0 < lexeme.utf8ByteSize := by
    apply Nat.pos_of_ne_zero
    intro zero
    rw [String.utf8ByteSize_eq_zero_iff.mp zero] at chars
    cases chars
  omega

/-- The tokens of a source cover it up to the end or up to the NUL that ends it. -/
theorem scan_tiles {source : String} (fits : source.utf8ByteSize ≤ Span.maxLength) :
    ∃ others last, Tiles source (scan source) others last := by
  have cuts := scan_cuts source
  obtain ⟨others, last, parts, isEnd, content⟩ := cuts.ended
  have isLast : last ∈ scan source := by simp [parts]
  obtain ⟨before, cs, lexeme, rest, lastHeads⟩ := cuts.heads isLast
  have ending := lastHeads.ending_bounds fits isEnd
  refine ⟨others, last, parts, isEnd, ?_, ?_, cuts.adjacent fits, ?_, ?_, ending, ?_, ?_⟩
  · intro token member
    have present : token ∈ scan source := by simp [parts, member]
    obtain ⟨_, _, _, _, heads⟩ := cuts.heads present
    exact ⟨content token member, heads.lo_lt_hi fits (content token member)⟩
  · obtain ⟨first, rest, starts, lo⟩ := cuts.head_lo
    simpa [starts] using lo
  · intro token member
    obtain ⟨_, _, _, _, heads⟩ := cuts.heads member
    have marks := heads.marks (heads.short fits)
    exact ⟨marks.lo_isValid, marks.hi_isValid⟩
  · intro token member
    obtain ⟨_, _, _, _, heads⟩ := cuts.heads member
    exact (heads.marks (heads.short fits)).slice
  · intro absent
    rcases ending with atEnd | ⟨isNul, -⟩
    · exact atEnd
    · exact absurd (lastHeads.mem_source (by simp [isNul])) absent
  · obtain ⟨after, whole, hi⟩ := cuts.joined fits parts
    exact ⟨after, by simpa using whole, by simpa using hi.symm⟩

/-- A NUL inside a comment ends the comment and then the source. -/
theorem scan_tiles_nul : "é//\x00 x".utf8ByteSize ≤ Span.maxLength ∧
    ∃ others last, Tiles "é//\x00 x" (scan "é//\x00 x") others last ∧
      (others ++ [last]).map kind = [.unexpectedChar, .comment, .eof] ∧
      last.text = "\x00" ∧ last.span = Span.ofBounds 4 5 := by
  have fits : "é//\x00 x".utf8ByteSize ≤ Span.maxLength := by decide
  obtain ⟨others, last, tiles⟩ := scan_tiles fits
  have scanned : (scan "é//\x00 x").map (fun token => (token.kind, token.text, token.span)) =
      [(.unexpectedChar, "é", .ofBounds 0 2), (.comment, "//", .ofBounds 2 4),
        (.eof, "\x00", .ofBounds 4 5)] := by
    cbv
  refine ⟨fits, others, last, tiles, ?_⟩
  rw [tiles.parts] at scanned
  have kinds := congrArg (List.map Prod.fst) scanned
  have final : last.kind = .eof ∧ last.text = "\x00" ∧ last.span = .ofBounds 4 5 := by
    simpa using congrArg List.getLast? scanned
  exact ⟨by simpa [Function.comp_def] using kinds, final.2⟩

end Token

end LetChain
