import LetChain.Number.Notation
import LetChain.Proofs.Token.Spelled

/-! Scanning undoes writing. Words that are written with single spaces between them are scanned into
exactly these words and the spaces, and what they stand for is read off the tokens. The text of any
token is scanned into that token again. -/

namespace LetChain

/-! ### Tokens by themselves -/

namespace Lexeme

variable {kind : TokenKind} {c : Char} {rest more left : List Char}

theorem takeWhile_again (part : Char → Bool) (cs : List Char) :
    (cs.takeWhile part).takeWhile part = cs.takeWhile part ∧
      (cs.takeWhile part).dropWhile part = [] := by
  have all : ∀ c ∈ cs.takeWhile part, part c = true := fun _ member => List.mem_takeWhile_imp member
  exact ⟨List.takeWhile_eq_self_iff.mpr all, List.dropWhile_eq_nil_iff.mpr all⟩

theorem run_again {part : Char → Bool} (taken : run kind c part rest = ⟨kind, c :: more, left⟩) :
    run kind c part more = ⟨kind, c :: more, []⟩ := by
  simp only [run, Lexeme.mk.injEq, List.cons.injEq, true_and] at taken
  obtain ⟨rfl, rfl⟩ := taken
  simp only [run, takeWhile_again]

theorem word_again (taken : word c rest = ⟨kind, c :: more, left⟩) :
    word c more = ⟨kind, c :: more, []⟩ := by
  simp only [word, Lexeme.mk.injEq, List.cons.injEq, true_and] at taken
  obtain ⟨rfl, rfl, rfl⟩ := taken
  simp only [word, takeWhile_again]

theorem minus_again (taken : minus c rest = ⟨kind, c :: more, left⟩) :
    minus c more = ⟨kind, c :: more, []⟩ := by
  unfold minus at taken
  split at taken
  · cases taken
    rfl
  · cases taken
    rfl

theorem slash_again (taken : slash c rest = ⟨kind, c :: more, left⟩) :
    slash c more = ⟨kind, c :: more, []⟩ := by
  unfold slash at taken
  split at taken
  · cases taken
    simp only [slash, takeWhile_again]
  · cases taken
    rfl

theorem string_again (taken : string c rest = ⟨kind, c :: more, left⟩) :
    string c more = ⟨kind, c :: more, []⟩ := by
  have all : ∀ d ∈ rest.takeWhile fun d : Char => d != '"' && d != '\x00',
      (d != '"' && d != '\x00') = true := fun _ member =>
    List.mem_takeWhile_imp (p := fun d : Char => d != '"' && d != '\x00') member
  cases found : rest.dropWhile fun d : Char => d != '"' && d != '\x00' with
  | nil =>
    simp only [string, found] at taken
    cases taken
    simp only [string, takeWhile_again]
  | cons stop after =>
    -- The character that ended the string ends it again.
    have stops : (stop != '"' && stop != '\x00') = false := by
      have head := List.head?_dropWhile_not (fun d : Char => d != '"' && d != '\x00') rest
      simpa [found] using head
    simp only [string, found] at taken
    cases taken
    simp only [string, List.dropWhile_append_of_pos all, List.takeWhile_append_of_pos all,
      List.dropWhile_cons, List.takeWhile_cons, stops, Bool.false_eq_true, if_false, List.append_nil]

theorem number_again (taken : number c rest = ⟨kind, c :: more, left⟩) :
    number c more = ⟨kind, c :: more, []⟩ := by
  have all : ∀ d ∈ rest.takeWhile Char.isDigit, d.isDigit = true :=
    fun _ member => List.mem_takeWhile_imp member
  have whole : number c (rest.takeWhile Char.isDigit) =
      ⟨.number, c :: rest.takeWhile Char.isDigit, []⟩ := by
    simpa using Word.number_whole (c := c) all .nil
  unfold number at taken
  split at taken
  · rename_i digit after found
    split at taken
    · rename_i isDigit
      cases taken
      have others : ∀ d ∈ after.takeWhile Char.isDigit, d.isDigit = true :=
        fun _ member => List.mem_takeWhile_imp member
      simpa using Word.number_fraction (c := c) all isDigit others .nil
    · cases taken
      exact whole
  · cases taken
    exact whole

theorem startingWith_again (taken : startingWith c rest = ⟨kind, c :: more, left⟩) :
    startingWith c more = ⟨kind, c :: more, []⟩ := by
  unfold startingWith at taken ⊢
  by_cases isNul : c = '\x00'
  · rw [if_pos isNul] at taken ⊢
    cases taken
    rfl
  rw [if_neg isNul] at taken ⊢
  by_cases isMinus : c = '-'
  · rw [if_pos isMinus] at taken ⊢
    exact minus_again taken
  rw [if_neg isMinus] at taken ⊢
  by_cases isSlash : c = '/'
  · rw [if_pos isSlash] at taken ⊢
    exact slash_again taken
  rw [if_neg isSlash] at taken ⊢
  by_cases isQuote : c = '"'
  · rw [if_pos isQuote] at taken ⊢
    exact string_again taken
  rw [if_neg isQuote] at taken ⊢
  cases mark : TokenKind.mark? c with
  | some kind =>
    rw [mark] at taken
    cases taken
    rfl
  | none =>
    rw [mark] at taken
    dsimp only at taken ⊢
    by_cases starts : isWordStart c
    · rw [if_pos starts] at taken ⊢
      exact word_again taken
    rw [if_neg starts] at taken ⊢
    by_cases isDigit : c.isDigit
    · rw [if_pos isDigit] at taken ⊢
      exact number_again taken
    rw [if_neg isDigit] at taken ⊢
    by_cases isBlank : Text.isBlank c
    · rw [if_pos isBlank] at taken ⊢
      obtain rfl : kind = .whitespace := (congrArg Lexeme.kind taken).symm
      exact run_again taken
    rw [if_neg isBlank] at taken ⊢
    cases taken
    rfl

theorem first_again {cs chars : List Char} (taken : first cs = ⟨kind, chars, rest⟩) :
    first chars = ⟨kind, chars, []⟩ := by
  cases cs with
  | nil =>
    cases taken
    rfl
  | cons c others =>
    obtain ⟨more, isHead⟩ := startingWith_chars_head c others
    obtain rfl : chars = c :: more := (congrArg Lexeme.chars taken).symm.trans isHead
    exact startingWith_again taken

end Lexeme

namespace Token

theorem scan_text {source : String} {token : Token} (member : token ∈ scan source)
    (more : token.kind ≠ .eof) (short : token.span.length < Span.maxLength) :
    (scan token.text).map word = [token.word, Word.final] := by
  obtain ⟨_, cs, lexeme, rest, heads⟩ := (scan_cuts source).heads member
  have fits : lexeme.utf8ByteSize ≤ Span.maxLength := by
    have length := heads.length_eq
    omega
  have first := Lexeme.first_again heads.first
  rw [← heads.text_eq fits] at first fits
  obtain ⟨first, others, scanned, isWord, -, cuts⟩ :=
    (scan_cuts token.text).uncons first more (by rwa [String.ofList_toList])
  rw [scanned, List.map_cons, isWord, cuts.words_nil.1, String.ofList_toList, word]

end Token

/-! ### Words that can be written -/

namespace Number

/-- Digits, with a point and more digits unless there are none. -/
def literal (whole fraction : List Char) : String :=
  String.ofList (whole ++ if fraction = [] then [] else '.' :: fraction)

/-- The number that digits before and after a point stand for. -/
def ofDigits (whole fraction : List Char) : Float :=
  ofDecimal (digitsValue (whole ++ fraction)) (-fraction.length)

variable {whole fraction : List Char}

theorem takeWhile_point (digits : ∀ c ∈ whole, c.isDigit = true) (rest : List Char) :
    (whole ++ '.' :: rest).takeWhile Char.isDigit = whole ∧
      (whole ++ '.' :: rest).dropWhile Char.isDigit = '.' :: rest := by
  have point : Char.isDigit '.' = false := by decide
  rw [List.takeWhile_append_of_pos digits, List.dropWhile_append_of_pos digits]
  simp [point]

theorem takeWhile_digits (digits : ∀ c ∈ whole, c.isDigit = true) :
    whole.takeWhile Char.isDigit = whole ∧ whole.dropWhile Char.isDigit = [] :=
  ⟨List.takeWhile_eq_self_iff.mpr digits, List.dropWhile_eq_nil_iff.mpr digits⟩

theorem isLiteral_literal (nonempty : whole ≠ []) (digits : ∀ c ∈ whole, c.isDigit = true)
    (digits' : ∀ c ∈ fraction, c.isDigit = true)
    (fits : (literal whole fraction).utf8ByteSize ≤ Span.maxLength) :
    isLiteral (literal whole fraction) = true := by
  rw [isLiteral, Bool.and_eq_true, decide_eq_true_eq]
  refine ⟨fits, ?_⟩
  obtain ⟨c, cs, rfl⟩ := List.exists_cons_of_ne_nil nonempty
  cases fraction with
  | nil => simp [literal, takeWhile_digits digits]
  | cons d ds =>
    simp only [literal, String.toList_ofList, reduceCtorEq, if_false,
      takeWhile_point digits]
    simpa using digits'

theorem readMagnitude?_literal (nonempty : whole ≠ []) (digits : ∀ c ∈ whole, c.isDigit = true)
    (digits' : ∀ c ∈ fraction, c.isDigit = true) :
    readMagnitude? (literal whole fraction).toList = some (ofDigits whole fraction) := by
  cases fraction with
  | nil => simp [readMagnitude?, literal, takeWhile_digits digits, nonempty, readExponent?, ofDigits]
  | cons d ds =>
    simp only [readMagnitude?, literal, String.toList_ofList, reduceCtorEq, if_false,
      takeWhile_point digits, takeWhile_digits digits']
    simp [readExponent?, ofDigits]

theorem read?_literal (nonempty : whole ≠ []) (digits : ∀ c ∈ whole, c.isDigit = true)
    (digits' : ∀ c ∈ fraction, c.isDigit = true) :
    read? (literal whole fraction) = some (ofDigits whole fraction) := by
  have read := readMagnitude?_literal nonempty digits digits'
  obtain ⟨c, cs, rfl⟩ := List.exists_cons_of_ne_nil nonempty
  have isDigit := digits c (by simp)
  have chars : (literal (c :: cs) fraction).toList =
      c :: (cs ++ if fraction = [] then [] else '.' :: fraction) := by
    simp [literal]
  rw [read?]
  rw [chars] at read ⊢
  split
  · rename_i heq
    cases heq
    exact absurd isDigit (by decide)
  · rename_i heq
    cases heq
    exact absurd isDigit (by decide)
  · exact read

end Number

namespace Word

/-- Words that can be written: keywords and marks, names, numbers and texts in quotes. A span has room
for each of them. -/
inductive Valid : Word → Prop
  | fixed {kind : TokenKind} (spelled : kind.spelling ≠ "") : Valid (of kind)
  | name {text : String} (isName : Text.isName text = true) : Valid (name text)
  | number {whole fraction : List Char} (nonempty : whole ≠ [])
      (digits : ∀ c ∈ whole, c.isDigit = true) (digits' : ∀ c ∈ fraction, c.isDigit = true)
      (fits : (Number.literal whole fraction).utf8ByteSize ≤ Span.maxLength) :
      Valid (number (Number.literal whole fraction))
  | quoted {text : String} (quotable : Text.isQuotable text = true) : Valid (quoted text)

theorem Valid.stands {word : Word} (valid : word.Valid) : word.Stands := by
  cases valid with
  | fixed spelled => exact stands_of spelled
  | name isName => exact stands_name isName
  | number nonempty digits digits' fits =>
    exact stands_number (Number.isLiteral_literal nonempty digits digits' fits)
  | quoted quotable => exact stands_quoted quotable

theorem Valid.literal_of_kind {word : Word} (valid : word.Valid) (kind : word.kind = .number) :
    ∃ whole fraction, whole ≠ [] ∧ (∀ c ∈ whole ++ fraction, c.isDigit = true) ∧
      word.text = Number.literal whole fraction := by
  cases valid with
  | fixed spelled =>
    subst kind
    exact absurd rfl spelled
  | name isName => cases kind
  | @number whole fraction nonempty digits digits' fits =>
    exact ⟨whole, fraction, nonempty, List.forall_mem_append.mpr ⟨digits, digits'⟩, rfl⟩
  | quoted quotable => cases kind

theorem Valid.quoted_of_kind {word : Word} (valid : word.Valid) (kind : word.kind = .string) :
    ∃ text, word = .quoted text := by
  cases valid with
  | fixed spelled =>
    subst kind
    exact absurd rfl spelled
  | name isName => cases kind
  | number => cases kind
  | @quoted text quotable => exact ⟨text, rfl⟩

end Word

theorem Span.slice?_inner {span : Span} {source : String} (inside : span.hi ≤ source.utf8ByteSize)
    (fits : source.utf8ByteSize ≤ Span.maxOffset) (quoted : 2 ≤ span.length) :
    (span.adjust 1 (-1)).slice? source =
      Text.slice? source (span.lo + 1) (span.lo + (span.length - 1)) := by
  have bounded := span.bounded
  rw [hi] at inside
  have lower : (span.adjust 1 (-1)).lo = span.lo + 1 := by
    simp only [adjust, moveOffset, ofBounds]
    omega
  have upper : (span.adjust 1 (-1)).hi = span.lo + (span.length - 1) := by
    simp only [adjust, moveOffset, ofBounds, hi]
    omega
  rw [slice?, lower, upper]

namespace Token

/-- What is taken out of a token: a number is that of its digits, and a string holds what stands
between its quotes. The span of the token leads to its text, and the span without its ends to what a
string holds. -/
structure Extracts (source : String) (token : Token) : Prop where
  number : token.kind = .number → ∃ whole fraction, whole ≠ [] ∧
    (∀ c ∈ whole ++ fraction, c.isDigit = true) ∧ token.text = Number.literal whole fraction ∧
    Number.read? token.text = some (Number.ofDigits whole fraction)
  string : token.kind = .string → ∃ value, token.text = "\"" ++ value ++ "\"" ∧
    token.content? = some value
  text_place : token.span.slice? source = some token.text
  content_place : source.utf8ByteSize ≤ Span.maxOffset → token.kind = .string →
    (token.span.adjust 1 (-1)).slice? source = token.content?

theorem scan_content_place {source : String} {token : Token} (member : token ∈ scan source)
    (fits : source.utf8ByteSize ≤ Span.maxOffset) (isString : token.kind = .string) :
    (token.span.adjust 1 (-1)).slice? source = token.content? := by
  obtain ⟨before, cs, lexeme, rest, heads⟩ := (scan_cuts source).heads member
  have spelled := Lexeme.spelled_first cs
  rw [heads.first] at spelled
  obtain ⟨text, isLexeme, plain⟩ := spelled.string isString
  rw [String.ofList_toList] at isLexeme
  have length := heads.length_eq
  have quoted : 2 ≤ lexeme.utf8ByteSize := by
    have quote : "\"".utf8ByteSize = 1 := rfl
    rw [isLexeme, String.utf8ByteSize_append, String.utf8ByteSize_append]
    omega
  have room : 2 ≤ Span.maxLength := by decide
  have inside : token.span.hi ≤ source.utf8ByteSize := by
    rw [heads.next, String.utf8ByteSize_append, String.utf8ByteSize_append, Span.hi, heads.lo]
    omega
  rw [Span.slice?_inner inside fits (by omega), heads.slice (by omega) (by omega), content?,
    heads.quotedSize isLexeme plain]

theorem extracts_of_valid {source : String} {token : Token} (member : token ∈ scan source)
    (whole : token.IsWhole) (valid : token.kind.isContent = true → token.word.Valid) :
    token.Extracts source := by
  refine ⟨fun isNumber => ?_, fun isString => ?_, ?_,
    fun fits isString => scan_content_place member fits isString⟩
  · obtain ⟨whole, fraction, nonempty, digits, text⟩ :=
      (valid (by rw [isNumber]; rfl)).literal_of_kind isNumber
    refine ⟨whole, fraction, nonempty, digits, text, ?_⟩
    have isText : token.text = Number.literal whole fraction := text
    rw [isText]
    rw [List.forall_mem_append] at digits
    exact Number.read?_literal nonempty digits.1 digits.2
  · obtain ⟨text, isWord⟩ := (valid (by rw [isString]; rfl)).quoted_of_kind isString
    exact ⟨text, congrArg Word.text isWord, content?_quoted isWord⟩
  · obtain ⟨_, _, _, _, heads⟩ := (scan_cuts source).heads member
    have found := heads.slice (Nat.zero_le _) (Nat.le_refl _)
    rw [whole, Text.slice?_self, ← whole] at found
    exact found

/-- Scanning undoes writing, as long as a span has room for each word. Words written with single
spaces between them are scanned into exactly these words, in order, with a space between any two and
the end after the last, and their tokens give out what was written. Every token of any source, blanks,
comments and errors included, that does not fill the longest span is scanned from its own text again,
as the only one before the end. -/
theorem scan_undoes_writing {words : List Word} (valid : ∀ word ∈ words, word.Valid) :
    (scan (Word.spaced words)).map word = words.intersperse Word.space ++ [Word.final] ∧
      (∀ token ∈ scan (Word.spaced words), token.Extracts (Word.spaced words)) ∧
      ∀ source, ∀ token ∈ scan source, token.kind ≠ .eof → token.span.length < Span.maxLength →
        (scan token.text).map word = [token.word, Word.final] := by
  obtain ⟨scanned, whole⟩ := scan_words fun word member => (valid word member).stands
  refine ⟨scanned, fun token member => extracts_of_valid member (whole token member) ?_,
    fun source token member more short => scan_text member more short⟩
  intro content
  have isWord : token.word ∈ words.intersperse Word.space ++ [Word.final] :=
    scanned ▸ List.mem_map_of_mem member
  rcases Word.mem_interspersed isWord with inWords | isSpace | isFinal
  · exact valid _ inWords
  · rw [show token.kind = .whitespace from congrArg Word.kind isSpace] at content
    cases content
  · rw [show token.kind = .eof from congrArg Word.kind isFinal] at content
    cases content

theorem scan_undoes_writing_mixed :
    (scan "- > -> 1.50 . \"é // \" iff if").map word =
        [.of .minus, .space, .of .greater, .space, .of .arrow, .space, .number "1.50", .space,
          .of .dot, .space, .quoted "é // ", .space, .name "iff", .space, .of .ifKw, .final] ∧
      (∀ token ∈ scan "- > -> 1.50 . \"é // \" iff if",
        token.Extracts "- > -> 1.50 . \"é // \" iff if") ∧
      ∀ token ∈ scan "-->\t\"a\x00é", token.kind ≠ .eof → token.span.length < Span.maxLength →
        (scan token.text).map word = [token.word, Word.final] := by
  have number : Word.Valid (.number (Number.literal ['1'] ['5', '0'])) :=
    .number (by simp) (List.all_eq_true.mp rfl) (List.all_eq_true.mp rfl) (by decide)
  have valid : ∀ word ∈ [.of .minus, .of .greater, .of .arrow, .number "1.50", .of .dot,
      .quoted "é // ", .name "iff", .of .ifKw], Word.Valid word := by
    simp only [List.forall_mem_cons]
    exact ⟨.fixed (by decide), .fixed (by decide), .fixed (by decide), number, .fixed (by decide),
      .quoted (by decide), .name (by decide), .fixed (by decide), nofun⟩
  obtain ⟨scanned, extracts, again⟩ := scan_undoes_writing valid
  exact ⟨scanned, extracts, again "-->\t\"a\x00é"⟩

/-- A text between quotes for which no span has room is not scanned into itself. -/
theorem scan_cuts_longText : Text.isPlain longText = true ∧
    (scan (Word.spaced [.quoted longText])).map word ≠
      [Word.quoted longText].intersperse Word.space ++ [Word.final] := by
  refine ⟨longText_isPlain, fun scanned => ?_⟩
  have present : Word.quoted longText ∈ (scan (Word.spaced [.quoted longText])).map word := by
    rw [scanned]
    exact List.mem_append_left _ (List.mem_singleton.mpr rfl)
  obtain ⟨token, member, isWord⟩ := List.mem_map.mp present
  obtain ⟨_, _, _, _, heads⟩ := (scan_cuts _).heads member
  have size := heads.text_size
  rw [show token.text = "\"" ++ longText ++ "\"" from congrArg Word.text isWord,
    String.utf8ByteSize_append, String.utf8ByteSize_append, longText_size] at size
  have quote : "\"".utf8ByteSize = 1 := rfl
  omega

end Token

end LetChain
