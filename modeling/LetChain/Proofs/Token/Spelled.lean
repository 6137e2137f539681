import LetChain.Proofs.Token.Spaced

/-! How tokens are spelled. Identifiers are names and strings hold what can be quoted, also where a span
is too short for a token and its text is cut. -/

namespace LetChain

namespace Text

variable {cs : List Char} {bound : Nat}

theorem takeBytes_size_ge (covers : bound ≤ (String.ofList cs).utf8ByteSize) :
    bound ≤ (String.ofList (takeBytes bound cs)).utf8ByteSize + 3 := by
  induction cs generalizing bound with
  | nil =>
    have none : bound ≤ 0 := by simpa using covers
    omega
  | cons c rest ih =>
    have le := c.utf8Size_le_four
    rw [utf8ByteSize_cons] at covers
    rw [takeBytes]
    split
    · have rest := @ih (bound - c.utf8Size) (by omega)
      rw [utf8ByteSize_cons]
      omega
    · omega

theorem takeBytes_size_eq (single : ∀ c ∈ cs, c.utf8Size = 1)
    (covers : bound ≤ (String.ofList cs).utf8ByteSize) :
    (String.ofList (takeBytes bound cs)).utf8ByteSize = bound := by
  induction cs generalizing bound with
  | nil => simpa [takeBytes] using (Nat.zero_le _).antisymm covers
  | cons c rest ih =>
    rw [List.forall_mem_cons] at single
    rw [utf8ByteSize_cons, single.1] at covers
    rw [takeBytes, single.1]
    split
    · rw [utf8ByteSize_cons, single.1, ih single.2 (by omega)]
      omega
    · simp
      omega

theorem splitBytes?_eq_some {size : Nat} {taken inner rest : List Char}
    (found : splitBytes? size taken cs = some (inner, rest)) :
    ∃ part, inner = taken.reverse ++ part ∧ cs = part ++ rest ∧
      (String.ofList part).utf8ByteSize = size := by
  induction cs generalizing size taken with
  | nil =>
    simp only [splitBytes?] at found
    split at found
    · cases found
      exact ⟨[], by simp, rfl, by simp [*]⟩
    · cases found
  | cons c others ih =>
    simp only [splitBytes?] at found
    split at found
    · cases found
      exact ⟨[], by simp, rfl, by simp [*]⟩
    · split at found
      · obtain ⟨part, rfl, rfl, isSize⟩ := ih found
        refine ⟨c :: part, by simp, rfl, ?_⟩
        rw [utf8ByteSize_cons, isSize]
        omega
      · cases found

theorem slice?_eq_some {text value : String} {lo hi : Nat} (found : slice? text lo hi = some value) :
    ∃ before after, text.toList = before ++ value.toList ++ after ∧
      (String.ofList before).utf8ByteSize = lo ∧ value.utf8ByteSize = hi - lo := by
  obtain ⟨⟨before, tail⟩, first, found⟩ := Option.bind_eq_some_iff.mp found
  obtain ⟨⟨inner, after⟩, second, found⟩ := Option.bind_eq_some_iff.mp found
  cases found
  obtain ⟨part, isBefore, isText, isLo⟩ := splitBytes?_eq_some first
  obtain ⟨part', isInner, isTail, isHi⟩ := splitBytes?_eq_some second
  simp only [List.reverse_nil, List.nil_append] at isBefore isInner
  subst isBefore isInner
  exact ⟨before, after, by rw [isText, isTail, String.toList_ofList, List.append_assoc], isLo, isHi⟩

end Text

/-! ### Lexemes -/

theorem Text.isName_parts {text : String} (isName : Text.isName text = true) {c : Char}
    (member : c ∈ text.toList) : Lexeme.isWordPart c = true := by
  unfold Text.isName at isName
  split at isName
  · cases isName
  · rename_i first rest chars
    simp only [Bool.and_eq_true, List.all_eq_true] at isName
    obtain ⟨⟨⟨starts, parts⟩, -⟩, -⟩ := isName
    rw [chars] at member
    rcases List.mem_cons.mp member with rfl | later
    · simp only [Lexeme.isWordStart, Lexeme.isWordPart, Char.isAlphanum, Bool.or_eq_true] at starts ⊢
      exact starts.imp_left .inl
    · exact parts c later

theorem Text.notMem_of_isName {text : String} (isName : Text.isName text = true) {c : Char}
    (other : Lexeme.isWordPart c = false) : c ∉ text.toList := fun member =>
  absurd (isName_parts isName member) (by simp [other])

namespace Lexeme

structure Spelled (lexeme : Lexeme) : Prop where
  name : lexeme.kind = .identifier → ∃ first rest, lexeme.chars = first :: rest ∧
    isWordStart first = true ∧ rest.all isWordPart = true ∧
    TokenKind.keyword? (String.ofList lexeme.chars) = none
  string : lexeme.kind = .string →
    ∃ text, String.ofList lexeme.chars = "\"" ++ text ++ "\"" ∧ Text.isPlain text = true

theorem spelled_of_ne {lexeme : Lexeme} (name : lexeme.kind ≠ .identifier)
    (string : lexeme.kind ≠ .string) : lexeme.Spelled :=
  ⟨fun isName => absurd isName name, fun isString => absurd isString string⟩

theorem spelled_word {first : Char} {rest : List Char} (starts : isWordStart first = true) :
    (word first rest).Spelled := by
  have parts : ∀ c ∈ rest.takeWhile isWordPart, isWordPart c = true :=
    fun _ member => List.mem_takeWhile_imp member
  cases found : TokenKind.keyword? (String.ofList (first :: rest.takeWhile isWordPart)) with
  | none =>
    refine ⟨fun _ => ?_, fun isString => ?_⟩
    · exact ⟨first, _, rfl, starts, List.all_eq_true.mpr parts, found⟩
    · simp only [word, found, Option.getD_none, reduceCtorEq] at isString
  | some keyword =>
    have isKeyword : (word first rest).kind = keyword := by
      simp only [word, found, Option.getD_some]
    refine spelled_of_ne ?_ ?_
    all_goals
      rw [isKeyword]
      rintro rfl
      unfold TokenKind.keyword? at found
      split at found <;> cases found

theorem spelled_string (rest : List Char) : (string '"' rest).Spelled := by
  have inner : ∀ c ∈ rest.takeWhile fun c : Char => c != '"' && c != '\x00',
      (c != '"' && c != '\x00') = true := fun c member =>
    List.mem_takeWhile_imp (p := fun c : Char => c != '"' && c != '\x00') member
  cases found : rest.dropWhile fun c : Char => c != '"' && c != '\x00' with
  | nil =>
    simp only [string, found]
    exact spelled_of_ne (by simp) (by simp)
  | cons stop after =>
    simp only [string, found]
    by_cases closed : stop = '"'
    · subst closed
      refine ⟨fun isName => by simp at isName, fun _ =>
        ⟨String.ofList (rest.takeWhile fun c => c != '"' && c != '\x00'), ?_, ?_⟩⟩
      · exact String.toList_injective (by simp)
      · rw [Text.isPlain, String.toList_ofList]
        exact List.all_eq_true.mpr inner
    · exact spelled_of_ne (by simp [closed]) (by simp [closed])

theorem mark_ne (c : Char) :
    TokenKind.mark? c ≠ some .identifier ∧ TokenKind.mark? c ≠ some .string := by
  unfold TokenKind.mark?
  repeat'
    refine iteInduction (motive := fun mark => mark ≠ some TokenKind.identifier ∧
      mark ≠ some TokenKind.string) (fun _ => ?_) fun _ => ?_
  all_goals exact ⟨nofun, nofun⟩

theorem spelled_startingWith (c : Char) (rest : List Char) : (startingWith c rest).Spelled := by
  unfold startingWith
  repeat' split
  · exact spelled_of_ne nofun nofun
  · unfold minus
    split <;> exact spelled_of_ne nofun nofun
  · unfold slash
    split <;> exact spelled_of_ne nofun nofun
  · rename_i isQuote
    subst isQuote
    exact spelled_string rest
  · rename_i kind found
    obtain ⟨notName, notString⟩ := mark_ne c
    rw [found] at notName notString
    exact spelled_of_ne (fun same => notName (congrArg some same))
      fun same => notString (congrArg some same)
  · rename_i starts
    exact spelled_word starts
  · unfold number
    repeat' split
    all_goals exact spelled_of_ne nofun nofun
  · exact spelled_of_ne nofun nofun
  · exact spelled_of_ne nofun nofun

theorem spelled_first : ∀ cs : List Char, (first cs).Spelled
  | [] => spelled_of_ne nofun nofun
  | c :: rest => spelled_startingWith c rest

end Lexeme

theorem TokenKind.keyword?_size {text : String} {kind : TokenKind}
    (isKeyword : keyword? text = some kind) : text.utf8ByteSize ≤ 7 := by
  unfold keyword? at isKeyword
  split at isKeyword
  all_goals first | decide | cases isKeyword

theorem Lexeme.utf8Size_isWordPart {c : Char} (isPart : isWordPart c = true) : c.utf8Size = 1 := by
  have le : c.toNat ≤ 122 := by
    simp only [isWordPart, Char.isAlphanum, Bool.or_eq_true] at isPart
    rcases isPart with (isAlpha | isDigit) | underscore
    · exact (Word.isWordStart_range (by simp [isWordStart, isAlpha])).2
    · exact (Word.isDigit_range isDigit).2.trans (by decide)
    · exact (Word.isWordStart_range (by rw [isWordStart, underscore, Bool.or_true])).2
  have low : c.val ≤ 0x7f := by
    rw [UInt32.le_iff_toNat_le]
    exact le.trans (by decide)
  simp [Char.utf8Size, low]

theorem Text.isName_fit {text : String} {first : Char} {rest : List Char}
    (chars : text.toList = first :: rest) (starts : Lexeme.isWordStart first = true)
    (parts : rest.all Lexeme.isWordPart = true) (noKeyword : TokenKind.keyword? text = none) :
    Text.isName (fit Span.maxLength text) = true ∧
      (fit Span.maxLength text).utf8ByteSize = min text.utf8ByteSize Span.maxLength := by
  have fits := fit_size Span.maxLength text
  have starts' : Lexeme.isWordPart first = true := by
    simp only [Lexeme.isWordStart, Lexeme.isWordPart, Char.isAlphanum, Bool.or_eq_true] at starts ⊢
    exact starts.imp_left .inl
  have single : ∀ c ∈ first :: rest, c.utf8Size = 1 := by
    refine List.forall_mem_cons.mpr ⟨Lexeme.utf8Size_isWordPart starts', fun c member => ?_⟩
    exact Lexeme.utf8Size_isWordPart (List.all_eq_true.mp parts c member)
  have kept : (fit Span.maxLength text).toList = first :: takeBytes (Span.maxLength - 1) rest := by
    rw [fit_eq, String.toList_ofList, chars, takeBytes, single first (by simp), if_pos (by decide)]
  have size : (fit Span.maxLength text).utf8ByteSize = min text.utf8ByteSize Span.maxLength := by
    by_cases short : text.utf8ByteSize ≤ Span.maxLength
    · rw [fit_of_le short, Nat.min_eq_left short]
    · rw [fit_eq, Nat.min_eq_right (by omega)]
      refine takeBytes_size_eq (chars ▸ single) ?_
      rw [String.ofList_toList]
      omega
  -- A text that was cut is too long for a keyword.
  have stillNone : TokenKind.keyword? (fit Span.maxLength text) = none := by
    by_cases short : text.utf8ByteSize ≤ Span.maxLength
    · rw [fit_of_le short, noKeyword]
    · rw [Option.eq_none_iff_forall_ne_some]
      intro kind isKeyword
      have := TokenKind.keyword?_size isKeyword
      have : 8 ≤ Span.maxLength := by decide
      omega
  refine ⟨?_, size⟩
  simp only [Text.isName, kept, stillNone, starts, Option.isNone_none, Bool.and_true, Bool.true_and,
    fits, decide_true, List.all_eq_true]
  exact fun c member => List.all_eq_true.mp parts c ((takeBytes_begins _ _).subset member)

/-! ### Tokens -/

namespace Token

/-- Identifiers are names and as long as their text, and what a string holds can be quoted. -/
structure Spelled (token : Token) : Prop where
  name : token.kind = .identifier → Text.isName token.text = true
  string : token.kind = .string → ∀ value, token.content? = some value → Text.isQuotable value = true
  span : token.kind = .identifier →
    token.span = .ofBounds token.span.lo (token.span.lo + token.text.utf8ByteSize)

namespace Heads

variable {source before lexeme text : String} {cs rest : List Char} {token : Token}

theorem cut_quoted (heads : Heads source before cs lexeme token rest)
    (isLexeme : lexeme = "\"" ++ text ++ "\"") (long : Span.maxLength < lexeme.utf8ByteSize) :
    ∃ others, token.text.toList = '"' :: others ∧ others ≠ [] ∧ others <+: text.toList := by
  have chars : lexeme.toList = '"' :: (text.toList ++ ['"']) := by simp [isLexeme]
  have length : token.span.length = Span.maxLength := by
    rw [heads.length_eq, Nat.min_eq_right long.le]
  have size : Span.maxLength ≤ token.text.utf8ByteSize + 3 := by
    rw [heads.text, length, Text.fit_eq]
    exact Text.takeBytes_size_ge (by rw [String.ofList_toList]; exact long.le)
  have isPrefix : token.text.toList <+: lexeme.toList := heads.text ▸ Text.fit_begins _ _
  cases isText : token.text.toList with
  | nil =>
    rw [String.toList_eq_nil_iff.mp isText] at size
    exact absurd size (by decide)
  | cons c others =>
    rw [isText, chars, List.cons_prefix_cons] at isPrefix
    obtain ⟨rfl, isPrefix⟩ := isPrefix
    refine ⟨others, rfl, ?_, ?_⟩
    · rintro rfl
      rw [← String.ofList_toList (s := token.text), isText] at size
      exact absurd size (by decide)
    · refine (List.prefix_concat_iff.mp isPrefix).resolve_left fun whole => ?_
      have same : token.text = lexeme := String.toList_injective (by rw [isText, whole, chars])
      have := heads.text_size
      rw [same] at this
      omega

theorem quotedSize (heads : Heads source before cs lexeme token rest)
    (isLexeme : lexeme = "\"" ++ text ++ "\"") (plain : Text.isPlain text = true) :
    token.quotedSize = token.span.length := by
  by_cases short : lexeme.utf8ByteSize ≤ Span.maxLength
  · have closed : token.text.toList.getLast? = some '"' := by
      have chars : token.text.toList = ('"' :: text.toList) ++ ['"'] := by
        simp [heads.text_eq short, isLexeme]
      rw [chars, List.getLast?_concat]
    rw [Token.quotedSize, if_pos closed, heads.length short]
  · obtain ⟨others, isText, nonempty, isPrefix⟩ := heads.cut_quoted isLexeme (by omega)
    have open' : token.text.toList.getLast? ≠ some '"' := by
      intro isLast
      rw [isText, List.getLast?_cons_of_ne_nil nonempty] at isLast
      have inText := isPrefix.subset (List.mem_of_getLast? isLast)
      simpa using List.all_eq_true.mp plain _ inText
    rw [Token.quotedSize, if_neg open', heads.length_eq, Nat.min_eq_right (by omega)]

theorem content_spelled (heads : Heads source before cs lexeme token rest)
    (isString : token.kind = .string) (isLexeme : lexeme = "\"" ++ text ++ "\"")
    (plain : Text.isPlain text = true) {value : String} (found : token.content? = some value) :
    Text.isQuotable value = true := by
  obtain ⟨head, after, isText, one, size⟩ := Text.slice?_eq_some found
  have bound := token.span.bounded
  rw [heads.quotedSize isLexeme plain] at size
  have room : value.utf8ByteSize + 2 ≤ Span.maxLength := by
    have : 2 ≤ Span.maxLength := by decide
    omega
  rw [Text.isQuotable, Bool.and_eq_true, decide_eq_true_eq]
  refine ⟨?_, room⟩
  by_cases short : lexeme.utf8ByteSize ≤ Span.maxLength
  · have isWord : token.word = .quoted text := by
      rw [word, isString, heads.text_eq short, isLexeme]
      rfl
    rw [Option.some.inj (found.symm.trans (content?_quoted isWord))]
    exact plain
  · obtain ⟨others, chars, -, isPrefix⟩ := heads.cut_quoted isLexeme (by omega)
    have inOthers : value.toList ⊆ others := by
      rw [chars] at isText
      cases head with
      | nil => cases one
      | cons c head =>
        obtain ⟨rfl, rfl⟩ := List.cons.inj isText
        exact fun d member => by simp [member]
    rw [Text.isPlain, List.all_eq_true] at plain ⊢
    exact fun c member => plain c (isPrefix.subset (inOthers member))

end Heads

theorem scan_spelled {source : String} {token : Token} (member : token ∈ scan source) :
    token.Spelled := by
  obtain ⟨_, cs, lexeme, rest, heads⟩ := (scan_cuts source).heads member
  have spelled := Lexeme.spelled_first cs
  rw [heads.first] at spelled
  have isText : token.text = Text.fit Span.maxLength lexeme := by
    by_cases short : lexeme.utf8ByteSize ≤ Span.maxLength
    · rw [heads.text_eq short, Text.fit_of_le short]
    · rw [heads.text, heads.length_eq, Nat.min_eq_right (by omega)]
  have name (isName : token.kind = .identifier) : Text.isName token.text = true ∧
      token.text.utf8ByteSize = min lexeme.utf8ByteSize Span.maxLength := by
    obtain ⟨first, rest, chars, starts, parts, noKeyword⟩ := spelled.name isName
    rw [String.ofList_toList] at noKeyword
    rw [isText]
    exact Text.isName_fit chars starts parts noKeyword
  refine ⟨fun isName => ?_, fun isString value found => ?_, fun isName => ?_⟩
  · exact (name isName).1
  · obtain ⟨text, isLexeme, plain⟩ := spelled.string isString
    rw [String.ofList_toList] at isLexeme
    exact heads.content_spelled isString isLexeme plain found
  · rw [(name isName).2, heads.span, Span.ofBounds]
    simp [Span.ofBounds, String.utf8ByteSize_append]

end Token

/-- As many letters as a span has bytes, so that no span has room for them and the quotes. -/
def longText : String := String.ofList (List.replicate Span.maxLength 'a')

theorem longText_size : longText.utf8ByteSize = Span.maxLength := by
  have letters (n : Nat) : (String.ofList (List.replicate n 'a')).utf8ByteSize = n := by
    induction n with
    | zero => rfl
    | succ n ih =>
      rw [List.replicate_succ, Text.utf8ByteSize_cons, ih]
      exact Nat.add_comm 1 n
  exact letters _

theorem longText_isPlain : Text.isPlain longText = true := by
  rw [Text.isPlain, longText, String.toList_ofList, List.all_eq_true]
  intro c member
  rw [List.eq_of_mem_replicate member]
  rfl

end LetChain
