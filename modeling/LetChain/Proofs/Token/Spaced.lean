import LetChain.Proofs.Token.Tiling

/-! Words with single spaces between them. A word that is one token wherever a space or the end
follows it is read back as that token, so a text of such words is scanned into exactly them. -/

namespace LetChain

/-- A token without its place. -/
structure Word where
  kind : TokenKind
  text : String

def Token.word (token : Token) : Word := ⟨token.kind, token.text⟩

namespace TokenKind

/-- How a kind is written if all its tokens are written the same way, and nothing if not. -/
def spelling : TokenKind → String
  | funcKw => "func"
  | typeKw => "type"
  | letKw => "let"
  | whereKw => "where"
  | ifKw => "if"
  | thenKw => "then"
  | elseKw => "else"
  | foreachKw => "foreach"
  | inKw => "in"
  | doKw => "do"
  | toKw => "to"
  | stepKw => "step"
  | andKw => "and"
  | orKw => "or"
  | trueKw => "true"
  | falseKw => "false"
  | plus => "+"
  | minus => "-"
  | star => "*"
  | slash => "/"
  | percent => "%"
  | less => "<"
  | greater => ">"
  | equals => "="
  | bang => "!"
  | dot => "."
  | comma => ","
  | leftParen => "("
  | rightParen => ")"
  | leftBrace => "\x7b"
  | rightBrace => "\x7d"
  | leftBracket => "["
  | rightBracket => "]"
  | arrow => "->"
  | _ => ""

def isContent (kind : TokenKind) : Bool := !kind.isTrivia && !kind.isError && kind != eof

end TokenKind

/-- A letter or underscore, then letters, digits and underscores, and no keyword. A span has room for
it. -/
def Text.isName (text : String) : Bool :=
  match text.toList with
  | [] => false
  | first :: rest =>
    Lexeme.isWordStart first && rest.all Lexeme.isWordPart && (TokenKind.keyword? text).isNone &&
      text.utf8ByteSize ≤ Span.maxLength

/-- A text without quote and NUL. -/
def Text.isPlain (text : String) : Bool := text.toList.all fun c => c != '"' && c != '\x00'

/-- A text that can stand between quotes. A span has room for it and the quotes. -/
def Text.isQuotable (text : String) : Bool :=
  isPlain text && text.utf8ByteSize + 2 ≤ Span.maxLength

/-- Digits, perhaps with a point and more digits. A span has room for them. -/
def Number.isLiteral (text : String) : Bool :=
  text.utf8ByteSize ≤ Span.maxLength &&
    match text.toList.takeWhile Char.isDigit, text.toList.dropWhile Char.isDigit with
    | _ :: _, [] => true
    | _ :: _, '.' :: digit :: rest => digit.isDigit && rest.all Char.isDigit
    | _, _ => false

namespace Word

def of (kind : TokenKind) : Word := ⟨kind, kind.spelling⟩

def name (text : String) : Word := ⟨.identifier, text⟩

def number (literal : String) : Word := ⟨.number, literal⟩

def quoted (text : String) : Word := ⟨.string, "\"" ++ text ++ "\""⟩

/-- What stands after the last word of a text. -/
def final : Word := ⟨.eof, ""⟩

def spaced (words : List Word) : String := " ".intercalate (words.map text)

def Parted (rest : List Char) : Prop := ∀ c ∈ rest.head?, c = ' '

/-- The word is one token, for which a span has room, and what follows it after a space is not part of
it. -/
structure Stands (word : Word) : Prop where
  content : word.kind.isContent = true
  fits : word.text.utf8ByteSize ≤ Span.maxLength
  dark : word.text.toList.head?.any Text.isBlank = false
  first : ∀ rest, Parted rest →
    Lexeme.first (word.text.toList ++ rest) = ⟨word.kind, word.text.toList, rest⟩

theorem Stands.solid {word : Word} (stands : word.Stands) :
    word.kind.isTrivia = false ∧ word.kind.isError = false ∧ word.kind ≠ .eof := by
  have content := stands.content
  simpa [TokenKind.isContent, and_assoc] using content

theorem Stands.ne_nil {word : Word} (stands : word.Stands) : word.text.toList ≠ [] := by
  intro empty
  have lexeme := stands.first [] (by simp [Parted])
  rw [empty] at lexeme
  exact stands.solid.2.2 (congrArg Lexeme.kind lexeme).symm

theorem Parted.space (rest : List Char) : Parted (' ' :: rest) := by simp [Parted]

theorem Parted.nil : Parted [] := by simp [Parted]

section Runs

variable {part : Char → Bool} {cs rest : List Char}

theorem takeWhile_parted (all : ∀ c ∈ cs, part c = true) (stops : part ' ' = false)
    (parted : Parted rest) : (cs ++ rest).takeWhile part = cs := by
  rw [List.takeWhile_append_of_pos all]
  cases rest with
  | nil => simp
  | cons c rest =>
    obtain rfl : c = ' ' := parted c rfl
    simp [stops]

theorem dropWhile_parted (all : ∀ c ∈ cs, part c = true) (stops : part ' ' = false)
    (parted : Parted rest) : (cs ++ rest).dropWhile part = rest := by
  rw [List.dropWhile_append_of_pos all]
  cases rest with
  | nil => simp
  | cons c rest =>
    obtain rfl : c = ' ' := parted c rfl
    simp [stops]

end Runs

/-! ### Which texts are words -/

theorem isWordStart_range {c : Char} (start : Lexeme.isWordStart c = true) :
    65 ≤ c.toNat ∧ c.toNat ≤ 122 := by
  simp only [Lexeme.isWordStart, Char.isAlpha, Char.isUpper, Char.isLower, Bool.or_eq_true,
    Bool.and_eq_true, decide_eq_true_eq, UInt32.le_iff_toNat_le, ge_iff_le, beq_iff_eq] at start
  have value : c.toNat = c.val.toNat := rfl
  have bounds : 'A'.val.toNat = 65 ∧ 'Z'.val.toNat = 90 ∧ 'a'.val.toNat = 97 ∧
    'z'.val.toNat = 122 := by decide
  rcases start with start | rfl
  · omega
  · decide

theorem isDigit_range {c : Char} (digit : c.isDigit = true) : 48 ≤ c.toNat ∧ c.toNat ≤ 57 := by
  simp only [Char.isDigit, Bool.and_eq_true, decide_eq_true_eq, UInt32.le_iff_toNat_le,
    ge_iff_le] at digit
  exact digit

theorem isBlank_of_range {c : Char} (low : 33 ≤ c.toNat) (high : c.toNat ≤ 122) :
    Text.isBlank c = false := by
  simp only [Text.isBlank, Bool.or_eq_false_iff, Bool.and_eq_false_iff, decide_eq_false_iff_not,
    beq_eq_false_iff_ne]
  omega

theorem startingWith_eq {c : Char} (rest : List Char)
    (ordinary : Lexeme.isWordStart c = true ∨ c.isDigit = true) :
    Lexeme.startingWith c rest =
      if Lexeme.isWordStart c then Lexeme.word c rest else Lexeme.number c rest := by
  have marks : ("\x00-/\"+*%<>=!.,()\x7b\x7d[]".toList.all fun d =>
      !Lexeme.isWordStart d && !d.isDigit) = true := by decide
  have differs : ∀ d ∈ "\x00-/\"+*%<>=!.,()\x7b\x7d[]".toList, c ≠ d := by
    rintro d isMark rfl
    have mark := List.all_eq_true.mp marks c isMark
    simp only [Bool.and_eq_true, Bool.not_eq_true'] at mark
    simp [mark] at ordinary
  simp only [String.reduceToList, List.forall_mem_cons] at differs
  simp only [Lexeme.startingWith, TokenKind.mark?, differs, if_false]
  by_cases start : Lexeme.isWordStart c = true
  · simp [start]
  · simp [start, ordinary.resolve_left start]

theorem first_word {c : Char} {cs rest : List Char} (start : Lexeme.isWordStart c = true)
    (all : ∀ d ∈ cs, Lexeme.isWordPart d = true) (parted : Parted rest) :
    Lexeme.first (c :: cs ++ rest) =
      ⟨(TokenKind.keyword? (String.ofList (c :: cs))).getD .identifier, c :: cs, rest⟩ := by
  simp only [List.cons_append, Lexeme.first]
  rw [startingWith_eq _ (.inl start), if_pos start, Lexeme.word]
  simp only [takeWhile_parted all (by decide) parted, dropWhile_parted all (by decide) parted]

theorem first_mark {c : Char} {kind : TokenKind} (mark : TokenKind.mark? c = some kind)
    (rest : List Char) : Lexeme.first (c :: rest) = ⟨kind, [c], rest⟩ := by
  have differs : ∀ d ∈ "\x00-/\"".toList, c ≠ d := by
    have unmarked : ("\x00-/\"".toList.all fun d => (TokenKind.mark? d).isNone) = true := by decide
    rintro d other rfl
    simpa [mark] using List.all_eq_true.mp unmarked c other
  simp only [String.reduceToList, List.forall_mem_cons] at differs
  simp only [Lexeme.first, Lexeme.startingWith, differs, if_false, mark]

theorem stands_of_word {word : Word} {c : Char} {cs : List Char} (text : word.text.toList = c :: cs)
    (shape : Lexeme.isWordStart c = true ∧ cs.all Lexeme.isWordPart = true)
    (kind : (TokenKind.keyword? word.text).getD .identifier = word.kind)
    (content : word.kind.isContent = true) (fits : word.text.utf8ByteSize ≤ Span.maxLength) :
    word.Stands where
  content := content
  fits := fits
  dark := by
    have range := isWordStart_range shape.1
    rw [text]
    exact isBlank_of_range (by omega) range.2
  first := by
    intro rest parted
    have whole : String.ofList (c :: cs) = word.text := by rw [← text, String.ofList_toList]
    rw [text, first_word shape.1 (List.all_eq_true.mp shape.2) parted, whole, kind]

theorem stands_of_mark {word : Word} {c : Char} (text : word.text.toList = [c])
    (mark : TokenKind.mark? c = some word.kind) (dark : Text.isBlank c = false)
    (content : word.kind.isContent = true) (fits : word.text.utf8ByteSize ≤ Span.maxLength) :
    word.Stands where
  content := content
  fits := fits
  dark := by simpa [text] using dark
  first := by
    intro rest _
    rw [text]
    exact first_mark mark rest

theorem stands_of {kind : TokenKind} (fixed : kind.spelling ≠ "") : (of kind).Stands := by
  cases kind with
  | funcKw | typeKw | letKw | whereKw | ifKw | thenKw | elseKw | foreachKw | inKw | doKw | toKw
  | stepKw | andKw | orKw | trueKw | falseKw =>
    exact stands_of_word rfl (by decide) (by decide) (by decide) (by decide)
  | plus | star | percent | less | greater | equals | bang | dot | comma | leftParen | rightParen
  | leftBrace | rightBrace | leftBracket | rightBracket =>
    exact stands_of_mark rfl (by decide) (by decide) (by decide) (by decide)
  | minus | slash =>
    refine ⟨by decide, by decide, by decide, fun rest parted => ?_⟩
    cases rest with
    | nil => rfl
    | cons c rest =>
      obtain rfl : c = ' ' := parted c rfl
      rfl
  | arrow => exact ⟨by decide, by decide, by decide, fun _ _ => rfl⟩
  | identifier | number | string | whitespace | comment | eof | unexpectedChar | unclosedString =>
    exact absurd rfl fixed

@[simp] theorem stands_of_iff {kind : TokenKind} : (of kind).Stands ↔ kind.spelling ≠ "" := by
  refine ⟨fun stands empty => stands.ne_nil ?_, stands_of⟩
  rw [of, empty]
  rfl

theorem stands_name {text : String} (isName : Text.isName text = true) : (name text).Stands := by
  unfold Text.isName at isName
  split at isName
  · cases isName
  · rename_i first rest chars
    simp only [Bool.and_eq_true, Option.isNone_iff_eq_none, decide_eq_true_eq] at isName
    exact stands_of_word chars isName.1.1 (by simp [name, isName.1.2]) rfl isName.2

theorem stands_quoted {text : String} (quotable : Text.isQuotable text = true) :
    (quoted text).Stands := by
  have chars : (quoted text).text.toList = '"' :: (text.toList ++ ['"']) := by
    simp [quoted, String.toList_append]
  rw [Text.isQuotable, Bool.and_eq_true, decide_eq_true_eq] at quotable
  refine ⟨rfl, ?_, by simpa [chars] using by decide, fun rest _ => ?_⟩
  · have quote : "\"".utf8ByteSize = 1 := rfl
    rw [quoted, String.utf8ByteSize_append, String.utf8ByteSize_append]
    omega
  have inner := List.all_eq_true.mp quotable.1
  have split : text.toList ++ ['"'] ++ rest = text.toList ++ '"' :: rest := by simp
  rw [chars, List.cons_append, split]
  change Lexeme.string '"' _ = _
  rw [Lexeme.string]
  simp only [List.dropWhile_append_of_pos inner, List.takeWhile_append_of_pos inner]
  simp [quoted]

section Numbers

variable {c digit : Char} {cs more rest : List Char}

theorem first_number (digits : ∀ d ∈ c :: cs, d.isDigit = true) (rest : List Char) :
    Lexeme.first (c :: cs ++ rest) = Lexeme.number c (cs ++ rest) := by
  have isDigit := digits c (by simp)
  have start : Lexeme.isWordStart c ≠ true := by
    intro start
    have letters := isWordStart_range start
    have digits := isDigit_range isDigit
    omega
  simp only [List.cons_append, Lexeme.first]
  rw [startingWith_eq _ (.inr isDigit), if_neg start]

theorem number_whole (digits : ∀ d ∈ cs, d.isDigit = true) (parted : Parted rest) :
    Lexeme.number c (cs ++ rest) = ⟨.number, c :: cs, rest⟩ := by
  rw [Lexeme.number]
  simp only [takeWhile_parted digits (by decide) parted, dropWhile_parted digits (by decide) parted]
  cases rest with
  | nil => rfl
  | cons d rest =>
    obtain rfl : d = ' ' := parted d rfl
    rfl

theorem number_fraction (digits : ∀ d ∈ cs, d.isDigit = true) (isDigit : digit.isDigit = true)
    (moreDigits : ∀ d ∈ more, d.isDigit = true) (parted : Parted rest) :
    Lexeme.number c (cs ++ '.' :: digit :: (more ++ rest)) =
      ⟨.number, c :: (cs ++ '.' :: digit :: more), rest⟩ := by
  have point : Char.isDigit '.' = false := by decide
  rw [Lexeme.number]
  simp only [List.dropWhile_append_of_pos digits, List.takeWhile_append_of_pos digits,
    List.dropWhile_cons, List.takeWhile_cons, point]
  simp [isDigit, takeWhile_parted moreDigits (by decide) parted,
    dropWhile_parted moreDigits (by decide) parted]

theorem stands_of_digit {literal : String} (text : literal.toList = c :: cs)
    (isDigit : c.isDigit = true) (fits : literal.utf8ByteSize ≤ Span.maxLength)
    (first : ∀ rest, Parted rest → Lexeme.first (c :: cs ++ rest) = ⟨.number, c :: cs, rest⟩) :
    (number literal).Stands where
  content := rfl
  fits := fits
  dark := by
    have range := isDigit_range isDigit
    rw [number, text]
    exact isBlank_of_range (by omega) (by omega)
  first := by simpa only [number, text] using first

end Numbers

theorem stands_number {literal : String} (isLiteral : Number.isLiteral literal = true) :
    (number literal).Stands := by
  have chars : literal.toList.takeWhile Char.isDigit ++ literal.toList.dropWhile Char.isDigit =
      literal.toList := List.takeWhile_append_dropWhile
  have digits := List.all_eq_true.mp (List.all_takeWhile (p := Char.isDigit) (l := literal.toList))
  rw [Number.isLiteral, Bool.and_eq_true, decide_eq_true_eq] at isLiteral
  obtain ⟨fits, isLiteral⟩ := isLiteral
  split at isLiteral
  · rename_i c cs whole noFraction
    rw [whole] at digits
    rw [whole, noFraction, List.append_nil] at chars
    refine stands_of_digit chars.symm (digits c (by simp)) fits fun rest parted => ?_
    rw [first_number digits]
    exact number_whole (fun d member => digits d (by simp [member])) parted
  · rename_i c cs digit more whole fraction
    rw [whole] at digits
    rw [whole, fraction, List.cons_append] at chars
    simp only [Bool.and_eq_true, List.all_eq_true] at isLiteral
    refine stands_of_digit chars.symm (digits c (by simp)) fits fun rest parted => ?_
    have apart : c :: (cs ++ '.' :: digit :: more) ++ rest =
        c :: cs ++ '.' :: digit :: (more ++ rest) := by simp
    rw [apart, first_number digits]
    exact number_fraction (fun d member => digits d (by simp [member])) isLiteral.1 isLiteral.2
      parted
  · cases isLiteral

/-! ### Texts of words -/

theorem spaced_toList (words : List Word) :
    (spaced words).toList = [' '].intercalate (words.map fun word => word.text.toList) := by
  simp [spaced, String.toList_intercalate, Function.comp_def]

theorem first_space {rest : List Char} (dark : rest.head?.any Text.isBlank = false) :
    Lexeme.first (' ' :: rest) = ⟨.whitespace, [' '], rest⟩ := by
  change Lexeme.run .whitespace ' ' Text.isBlank rest = _
  rw [Lexeme.run]
  cases rest with
  | nil => rfl
  | cons c rest =>
    have dark : Text.isBlank c = false := dark
    simp [dark]

theorem dark_intercalate {next : Word} (stands : next.Stands) (rest : List Word) :
    ([' '].intercalate ((next :: rest).map fun word => word.text.toList)).head?.any Text.isBlank =
      false := by
  have dark := stands.dark
  cases text : next.text.toList with
  | nil => exact absurd text stands.ne_nil
  | cons c cs =>
    rw [text] at dark
    cases rest with
    | nil => simpa [text] using dark
    | cons other rest => simpa [text, List.intercalate_cons_cons] using dark

/-- The space that parts two words. -/
def space : Word := ⟨.whitespace, " "⟩

theorem mem_interspersed {words : List Word} {word : Word}
    (member : word ∈ words.intersperse space ++ [final]) :
    word ∈ words ∨ word = space ∨ word = final := by
  rw [List.mem_append, List.mem_singleton] at member
  rcases member with member | isFinal
  · fun_induction List.intersperse space words with
    | case1 => exact .inl member
    | case2 first => exact .inl member
    | case3 first rest nonempty ih =>
      rcases List.mem_cons.mp member with rfl | later
      · exact .inl List.mem_cons_self
      · rcases List.mem_cons.mp later with isSpace | later
        · exact .inr (.inl isSpace)
        · exact (ih later).imp_left (List.mem_cons_of_mem _)
  · exact .inr (.inr isFinal)

theorem filter_interspersed {words : List Word} (stands : ∀ word ∈ words, word.Stands) :
    (words.intersperse space).filter (fun word => !word.kind.isTrivia) = words := by
  fun_induction List.intersperse space words with
  | case1 => rfl
  | case2 first => simp [(stands first (by simp)).solid.1]
  | case3 first rest nonempty ih =>
    rw [List.forall_mem_cons] at stands
    rw [List.filter_cons_of_pos (by simp [stands.1.solid.1]),
      List.filter_cons_of_neg (by decide), ih stands.2]

end Word

namespace Token

theorem content?_quoted {token : Token} {text : String} (isWord : token.word = .quoted text) :
    token.content? = some text := by
  have isText : token.text = "\"" ++ (text ++ "\"") := by
    rw [← String.append_assoc]
    exact congrArg Word.text isWord
  have closed : token.text.toList.getLast? = some '"' := by
    have chars : token.text.toList = ('"' :: text.toList) ++ ['"'] := by simp [isText]
    rw [chars, List.getLast?_concat]
  have size : token.quotedSize - 1 = "\"".utf8ByteSize + text.utf8ByteSize := by
    have quote : "\"".utf8ByteSize = 1 := rfl
    rw [quotedSize, if_pos closed, isText, String.utf8ByteSize_append, String.utf8ByteSize_append]
    omega
  have inner := Text.slice?_fit (Nat.zero_le _) (Nat.le_refl text.utf8ByteSize) (Nat.le_refl _) "\""
  rw [Text.fit_of_le (Nat.le_refl _), Text.slice?_self] at inner
  rw [content?, size, isText]
  exact (Text.slice?_append "\"" _ 0 _).trans inner.symm

def IsWhole (token : Token) : Prop := token.span.length = token.text.utf8ByteSize

namespace Cuts

variable {source before : String} {cs chars rest : List Char} {tokens : List Token}
  {kind : TokenKind}

theorem uncons (cuts : Cuts source before cs tokens) (first : Lexeme.first cs = ⟨kind, chars, rest⟩)
    (more : kind ≠ .eof) (short : (String.ofList chars).utf8ByteSize ≤ Span.maxLength) :
    ∃ token others, tokens = token :: others ∧ token.word = ⟨kind, String.ofList chars⟩ ∧
      token.IsWhole ∧ Cuts source (before ++ String.ofList chars) rest others := by
  cases cuts with
  | last heads isEnd =>
    rw [heads.first, isEnd] at first
    exact absurd (congrArg Lexeme.kind first).symm more
  | @cons _ lexeme _ rest' token others heads _ cuts =>
    have same := heads.first.symm.trans first
    simp only [Lexeme.mk.injEq] at same
    obtain ⟨rfl, rfl, rfl⟩ := same
    rw [String.ofList_toList] at short ⊢
    exact ⟨token, others, rfl, by rw [word, heads.text_eq short], heads.length short, cuts⟩

theorem words_nil (cuts : Cuts source before [] tokens) :
    tokens.map word = [Word.final] ∧ ∀ token ∈ tokens, token.IsWhole := by
  cases cuts with
  | @last _ lexeme _ _ token heads isEnd =>
    obtain rfl : lexeme = "" :=
      String.toList_eq_nil_iff.mp (congrArg Lexeme.chars heads.first).symm
    refine ⟨?_, List.forall_mem_singleton.mpr (heads.length (by decide))⟩
    rw [List.map_singleton, word, isEnd, heads.text_eq (by decide)]
    rfl
  | cons heads more cuts => exact absurd (congrArg Lexeme.kind heads.first).symm more

/-- The induction is on the words: each is the first token of what is left, and so is the space after
it. -/
theorem words_spaced {words : List Word} (stands : ∀ word ∈ words, word.Stands)
    (cuts : Cuts source before (Word.spaced words).toList tokens) :
    tokens.map word = words.intersperse Word.space ++ [Word.final] ∧
      ∀ token ∈ tokens, token.IsWhole := by
  rw [Word.spaced_toList] at cuts
  induction words generalizing before tokens with
  | nil => exact cuts.words_nil
  | cons word rest ih =>
    rw [List.forall_mem_cons] at stands
    obtain ⟨stand, stands⟩ := stands
    have fits : (String.ofList word.text.toList).utf8ByteSize ≤ Span.maxLength := by
      rw [String.ofList_toList]
      exact stand.fits
    cases rest with
    | nil =>
      have first := stand.first [] .nil
      rw [List.append_nil] at first
      simp only [List.map_cons, List.map_nil, List.intercalate_singleton] at cuts
      obtain ⟨token, others, rfl, isWord, whole, cuts⟩ := cuts.uncons first stand.solid.2.2 fits
      refine ⟨?_, List.forall_mem_cons.mpr ⟨whole, cuts.words_nil.2⟩⟩
      rw [List.map_cons, isWord, cuts.words_nil.1, String.ofList_toList]
      rfl
    | cons next rest =>
      have joined : [' '].intercalate ((word :: next :: rest).map fun word => word.text.toList)
          = word.text.toList ++
            ' ' :: [' '].intercalate ((next :: rest).map fun word => word.text.toList) := by
        simp [List.intercalate_cons_cons]
      rw [joined] at cuts
      obtain ⟨token, others, rfl, isWord, whole, cuts⟩ :=
        cuts.uncons (stand.first _ (.space _)) stand.solid.2.2 fits
      obtain ⟨gap, others, rfl, isSpace, gapWhole, cuts⟩ := cuts.uncons
        (Word.first_space (Word.dark_intercalate (stands next (by simp)) rest)) (by decide)
        (by decide)
      obtain ⟨isRest, restWhole⟩ := ih stands cuts
      refine ⟨?_, List.forall_mem_cons.mpr ⟨whole, List.forall_mem_cons.mpr ⟨gapWhole, restWhole⟩⟩⟩
      rw [List.map_cons, List.map_cons, isRest, isWord, isSpace, String.ofList_toList]
      rfl

end Cuts

theorem scan_words {words : List Word} (stands : ∀ word ∈ words, word.Stands) :
    (scan (Word.spaced words)).map word = words.intersperse Word.space ++ [Word.final] ∧
      ∀ token ∈ scan (Word.spaced words), token.IsWhole :=
  (scan_cuts _).words_spaced stands

def Shows (tokens : List Token) (words : List Word) : Prop :=
  (tokens.filter fun token => !token.kind.isTrivia).map word = words ∧
    ∀ token ∈ tokens, token.kind.isError = false

theorem Shows.length_le {tokens : List Token} {words : List Word} (shows : Shows tokens words) :
    words.length ≤ tokens.length := by
  rw [← shows.1, List.length_map]
  exact List.length_filter_le ..

theorem scan_spaced {words : List Word} (stands : ∀ word ∈ words, word.Stands) :
    Shows (scan (Word.spaced words)) (words ++ [Word.final]) := by
  obtain ⟨scanned, -⟩ := scan_words stands
  refine ⟨?_, fun token member => ?_⟩
  · have filtered := congrArg (List.filter fun word => !word.kind.isTrivia) scanned
    rw [List.filter_map, List.filter_append, Word.filter_interspersed stands] at filtered
    exact filtered
  · have isWord : token.word ∈ words.intersperse Word.space ++ [Word.final] :=
      scanned ▸ List.mem_map_of_mem member
    rcases Word.mem_interspersed isWord with inWords | isSpace | isFinal
    · exact (stands _ inWords).solid.2.1
    · exact congrArg (fun word => word.kind.isError) isSpace
    · exact congrArg (fun word => word.kind.isError) isFinal

end Token

end LetChain
