import LetChain.Proofs.Compiled.Trivia
import LetChain.Proofs.Syntax.Local
import LetChain.Proofs.Syntax.Regions
import LetChain.Proofs.Syntax.RoundTrip

/-! Operands with binary operators between them are read as the tree that comes from splitting at the
last of the operators that bind loosest, and splitting both sides again. -/

namespace LetChain

/-! ### Trees of operators -/

inductive OpTree (α : Type) where
  | leaf (operand : α)
  | node (op : Operator) (lhs rhs : OpTree α)

namespace OpTree

variable {α : Type}

/-- The first operand from left to right, and each further one with the operator before it. -/
def inorder : OpTree α → α × List (Operator × α)
  | leaf operand => (operand, [])
  | node op lhs rhs => (lhs.inorder.1, lhs.inorder.2 ++ (op, rhs.inorder.1) :: rhs.inorder.2)

/-- What stands before the last of the loosest operators, that operator with its operand, and what
stands after them. -/
def splitLoosest : Operator × α → List (Operator × α) →
    List (Operator × α) × (Operator × α) × List (Operator × α)
  | link, [] => ([], link, [])
  | link, next :: rest =>
    let (before, pivot, after) := splitLoosest next rest
    if link.1.precedence < pivot.1.precedence then ([], link, next :: rest)
    else (link :: before, pivot, after)

/-- The operators before are at least as tight as this one, and those after it are tighter. -/
structure Loosest (before : List (Operator × α)) (op : Operator) (after : List (Operator × α)) :
    Prop where
  before : ∀ link ∈ before, op.precedence ≤ link.1.precedence
  after : ∀ link ∈ after, op.precedence < link.1.precedence

theorem splitLoosest_spec (link : Operator × α) (rest : List (Operator × α)) {before pivot after}
    (split : splitLoosest link rest = (before, pivot, after)) :
    link :: rest = before ++ pivot :: after ∧ Loosest before pivot.1 after := by
  induction rest generalizing link before pivot after with
  | nil =>
    cases split
    exact ⟨rfl, by simp, by simp⟩
  | cons next rest ih =>
    rcases parts : splitLoosest next rest with ⟨before', pivot', after'⟩
    obtain ⟨whole, loosest⟩ := ih next parts
    rw [splitLoosest, parts] at split
    dsimp only at split
    split at split
    case isTrue looser =>
      cases split
      refine ⟨rfl, by simp, fun other member => ?_⟩
      rw [whole] at member
      rcases List.mem_append.mp member with member | member
      · exact Nat.lt_of_lt_of_le looser (loosest.before other member)
      · rcases List.mem_cons.mp member with rfl | member
        · exact looser
        · exact Nat.lt_trans looser (loosest.after other member)
    case isFalse tighter =>
      cases split
      refine ⟨by rw [whole]; rfl, List.forall_mem_cons.mpr ⟨by omega, loosest.before⟩, loosest.after⟩

theorem splitLoosest_length (link : Operator × α) (rest : List (Operator × α)) :
    (splitLoosest link rest).1.length + (splitLoosest link rest).2.2.length = rest.length := by
  rcases parts : splitLoosest link rest with ⟨before, pivot, after⟩
  have whole := congrArg List.length (splitLoosest_spec link rest parts).1
  simp only [List.length_cons, List.length_append] at whole
  dsimp only
  omega

theorem Loosest.unique {before after before' after' : List (Operator × α)} {link link' : Operator × α}
    (loosest : Loosest before link.1 after) (loosest' : Loosest before' link'.1 after')
    (same : before ++ link :: after = before' ++ link' :: after') :
    before = before' ∧ link = link' ∧ after = after' := by
  induction before generalizing before' with
  | nil =>
    cases before' with
    | nil => simpa using same
    | cons first before' =>
      obtain ⟨rfl, later⟩ := List.cons.inj same
      have looser := loosest.after link' (by simp [later])
      have tighter := loosest'.before link (by simp)
      omega
  | cons first before ih =>
    cases before' with
    | nil =>
      obtain ⟨rfl, later⟩ := List.cons.inj same
      have looser := loosest'.after link (by simp [← later])
      have tighter := loosest.before first (by simp)
      omega
    | cons first' before' =>
      obtain ⟨rfl, later⟩ := List.cons.inj same
      obtain ⟨rfl, rfl, rfl⟩ := ih ⟨fun link member => loosest.before link (by simp [member]),
        loosest.after⟩ ⟨fun link member => loosest'.before link (by simp [member]),
        loosest'.after⟩ later
      exact ⟨rfl, rfl, rfl⟩

/-- Splits at the last of the loosest operators, and both sides again. -/
def reference (first : α) : List (Operator × α) → OpTree α
  | [] => leaf first
  | link :: rest =>
    let parts := splitLoosest link rest
    have := splitLoosest_length link rest
    node parts.2.1.1 (reference first parts.1) (reference parts.2.1.2 parts.2.2)
termination_by links => links.length
decreasing_by all_goals simp only [List.length_cons]; omega

@[simp] theorem reference_nil (first : α) : reference first [] = leaf first := by
  rw [reference]

theorem reference_split (first operand : α) {before after : List (Operator × α)} {op : Operator}
    (loosest : Loosest before op after) :
    reference first (before ++ (op, operand) :: after) =
      node op (reference first before) (reference operand after) := by
  obtain ⟨link, rest, links⟩ : ∃ link rest, before ++ (op, operand) :: after = link :: rest := by
    cases before <;> simp
  rcases parts : splitLoosest link rest with ⟨before', pivot, after'⟩
  obtain ⟨whole, loosest'⟩ := splitLoosest_spec link rest parts
  rw [links, reference, parts]
  have loosest : Loosest before ((op, operand) : Operator × α).1 after := loosest
  obtain ⟨rfl, rfl, rfl⟩ := loosest.unique loosest' (links.trans whole)
  rfl

example : reference 'a' [(.sub, 'b'), (.sub, 'c'), (.mul, 'd'), (.eq, 'e')] =
    node .eq (node .sub (node .sub (leaf 'a') (leaf 'b')) (node .mul (leaf 'c') (leaf 'd')))
      (leaf 'e') := by cbv

theorem exists_loosest {links : List (Operator × α)} (nonempty : links ≠ []) :
    ∃ before op operand after, links = before ++ (op, operand) :: after ∧
      Loosest before op after := by
  obtain ⟨link, rest, rfl⟩ := List.exists_cons_of_ne_nil nonempty
  rcases parts : splitLoosest link rest with ⟨before, ⟨op, operand⟩, after⟩
  exact ⟨before, op, operand, after, splitLoosest_spec link rest parts⟩

theorem inorder_reference (first : α) (links : List (Operator × α)) :
    (reference first links).inorder = (first, links) := by
  induction size : links.length using Nat.strongRecOn generalizing first links with
  | ind n ih =>
    by_cases nonempty : links = []
    · simp [nonempty, inorder]
    · obtain ⟨before, op, operand, after, rfl, loosest⟩ := exists_loosest nonempty
      rw [List.length_append, List.length_cons] at size
      rw [reference_split first operand loosest, inorder,
        ih before.length (by omega) first before rfl, ih after.length (by omega) operand after rfl]

/-- The expression of a tree; an operation spans both its sides. -/
def expr : OpTree (Expr .parsed) → Expr .parsed
  | leaf operand => operand
  | node op lhs rhs => .binary op lhs.expr rhs.expr (lhs.expr.span.join rhs.expr.span) ()

def grown (first : Expr .parsed) (links : List (Operator × Expr .parsed)) : Expr .parsed :=
  (reference first links).expr

theorem grown_split (first operand : Expr .parsed) {op : Operator}
    {before after : List (Operator × Expr .parsed)} (loosest : Loosest before op after) :
    grown first (before ++ (op, operand) :: after) =
      .binary op (grown first before) (grown operand after)
        ((grown first before).span.join (grown operand after).span) () := by
  rw [grown, reference_split first operand loosest]
  rfl

theorem grown_cons (first operand : Expr .parsed) {op : Operator}
    {tight : List (Operator × Expr .parsed)}
    (tighter : ∀ link ∈ tight, op.precedence < link.1.precedence)
    (loose : List (Operator × Expr .parsed))
    (looser : ∀ link ∈ loose.head?, link.1.precedence ≤ op.precedence) :
    grown first ((op, operand) :: tight ++ loose) =
      grown (.binary op first (grown operand tight) (first.span.join (grown operand tight).span) ())
        loose := by
  induction size : loose.length using Nat.strongRecOn generalizing loose with
  | ind n ih =>
    by_cases nonempty : loose = []
    · subst nonempty
      have alone : grown first [] = first := by simp [grown, expr]
      have single : Loosest [] op tight := ⟨by simp, tighter⟩
      have whole := grown_split first operand single
      rw [alone, List.nil_append] at whole
      rw [List.append_nil, whole]
      simp [grown, expr]
    · obtain ⟨before, op', operand', after, rfl, loosest⟩ := exists_loosest nonempty
      rw [List.length_append, List.length_cons] at size
      have below : op'.precedence ≤ op.precedence := by
        cases before with
        | nil => exact looser _ rfl
        | cons link before => exact Nat.le_trans (loosest.before link (by simp)) (looser link rfl)
      have wider : Loosest ((op, operand) :: tight ++ before) op' after := by
        refine ⟨fun link member => ?_, loosest.after⟩
        rcases List.mem_append.mp member with member | member
        · rcases List.mem_cons.mp member with rfl | member
          · exact below
          · exact Nat.le_trans below (Nat.le_of_lt (tighter link member))
        · exact loosest.before link member
      have left := ih before.length (by omega) before
        (fun link member => looser link (by cases before <;> simp_all)) rfl
      rw [← List.append_assoc, grown_split first operand' wider, left, grown_split _ operand' loosest]

end OpTree

/-! ### Operands -/

def parseOperand (source : String) (names : NameTable) :
    Except (Located ParseError) (Expr .parsed) × NameTable :=
  parseWith (fun fuel => Reader.operand fuel <* Reader.expect .eof) source names

/-- The words of a text: its tokens up to the end without blanks and comments. -/
def Token.words (source : String) : List Word :=
  ((scan source).filter (·.kind.isContent)).map word

/-- A text that is an operand and no conditional or loop, which would go on after it. -/
structure Operand where
  text : String
  names : NameTable
  value : Expr .parsed
  reads : (parseOperand text names).1 = .ok value
  closed : Word.headKind (Token.words text) ≠ .ifKw ∧ Word.headKind (Token.words text) ≠ .foreachKw

namespace Reader

theorem operand_same {start start' stop : Cursor} {fuel fuel' : Nat} {a : PExpr}
    (same : List.Forall₂ Token.Same start.tokens start'.tokens) (ended : start.Ended)
    (ended' : start'.Ended) (low : 8 * start.left + 2 ≤ fuel) (low' : 8 * start.left + 2 ≤ fuel')
    (ran : operand fuel start = .ok a stop) :
    ∃ b stop', operand fuel' start' = .ok b stop' ∧
      b.relocate Span.forget = a.relocate Span.forget ∧ stop'.left = stop.left ∧
      stop.left < start.left := by
  obtain ⟨here, later⟩ := List.forall₂_cons.mp same
  let bare : Cursor := ⟨start.current.unplaced, start.ahead.map Token.unplaced, start.names⟩
  have mirrors : start.Mirrors .forget bare := by
    refine ⟨(Token.Same.refl _).unplaced, List.forall₂_map_right_iff.mpr ?_⟩
    exact List.forall₂_same.mpr fun token _ => (Token.Same.refl token).unplaced
  have mirrors' : start'.Mirrors .forget bare := by
    refine ⟨here.unplaced, List.forall₂_map_right_iff.mpr ?_⟩
    exact later.flip.imp fun _ _ same => same.unplaced
  have lengths : start'.left = start.left := later.length_eq.symm
  have agree := Mirrors.operand fuel fuel' start.left low low' start bare mirrors ended (Nat.le_refl _)
  have agree' := Mirrors.operand fuel' fuel' start.left low' low' start' bare mirrors' ended'
    (Nat.le_of_eq lengths)
  rw [ran] at agree
  generalize operand fuel' bare = middle at agree agree'
  generalize operand fuel' start' = result at agree'
  cases agree with
  | ok isMoved stops _ fewer =>
    cases agree' with
    | @ok b _ stop' _ isMoved' stops' =>
      refine ⟨b, stop', rfl, isMoved'.symm.trans isMoved, ?_, fewer⟩
      exact stops'.ahead.length_eq.trans stops.ahead.length_eq.symm

end Reader

theorem Token.solid_scan {source : String}
    (clean : ∀ token ∈ scan source, token.kind.isError = false) :
    ∃ last, last.kind = .eof ∧
      solid (scan source) = (scan source).filter (·.kind.isContent) ++ [last] := by
  obtain ⟨others, last, whole, isEnd, before⟩ := (scan_cuts source).ended
  rw [whole] at clean ⊢
  refine ⟨last, isEnd, ?_⟩
  have kept : solid others = others.filter (·.kind.isContent) := by
    refine List.filter_congr fun token member => ?_
    have noError := clean token (by simp [member])
    have noEnd := before token member
    simp [TokenKind.isContent, noError, noEnd]
  have ends : solid [last] = [last] := by simp [solid, isEnd, TokenKind.isTrivia]
  rw [solid, List.filter_append, ← solid, ← solid, kept, ends, List.filter_append]
  simp [TokenKind.isContent, isEnd]

structure Operand.Run (operand : Operand) (fuel : Nat) (start stop : Cursor) (front : List Token) :
    Prop where
  ended : start.Ended
  low : 8 * start.left + 2 ≤ fuel
  ran : Reader.operand fuel start = .ok operand.value stop
  isEnd : stop.current.kind = .eof
  tokens : ∃ last, last.kind = .eof ∧ start.tokens = front ++ [last]
  words : front.map Token.word = Token.words operand.text

theorem Operand.exists_run (operand : Operand) :
    ∃ fuel start stop front, operand.Run fuel start stop front := by
  obtain ⟨text, names, value, reads, closed⟩ := operand
  have clean : ∀ token ∈ Token.scan text, token.kind.isError = false := by
    cases bad : (Token.scan text).find? fun token => token.kind.isError with
    | none => simpa using bad
    | some token => simp [parseOperand, parseWith, bad] at reads
  rw [parseOperand, parseWith_eq_kept clean] at reads
  obtain ⟨last, isEnd, solid⟩ := Token.solid_scan clean
  obtain ⟨first, rest, split, start, ended⟩ :=
    Cursor.ofTokens_eq (Token.scan_cuts text).ended names.register
  have enough := Cursor.ofTokens_left (Token.scan text) names.register
  generalize Cursor.ofTokens (Token.scan text) names.register = cursor at *
  generalize 8 * (Token.scan text).length + 16 = fuel at *
  cases ran : (Reader.operand fuel <* Reader.expect .eof) cursor with
  | error error stop =>
    rw [ran] at reads
    cases reads
  | ok read stop =>
    rw [ran] at reads
    cases reads
    rw [seqLeft_eq_bind] at ran
    obtain ⟨a, between, ranOperand, ranRest⟩ := Reader.bind_eq_ok.mp ran
    obtain ⟨_, _, ranEnd, ranPure⟩ := Reader.bind_eq_ok.mp ranRest
    cases ranPure
    rw [Reader.expect_eq] at ranEnd
    split at ranEnd
    case isFalse => cases ranEnd
    case isTrue atEnd =>
      refine ⟨fuel, cursor, between, (Token.scan text).filter (·.kind.isContent), ended, by omega,
        ranOperand, atEnd, ⟨last, isEnd, ?_⟩, rfl⟩
      rw [start, Cursor.tokens, ← solid, split]

def Word.Stops (after : List Word) : Prop :=
  headKind after ≠ .identifier ∧ headKind after ≠ .leftParen ∧ headKind after ≠ .leftBrace ∧
    (headKind after = .dot → headKind after.tail ≠ .identifier)

theorem Cursor.Faces.stops {cursor : Cursor} {after : List Word} (faces : cursor.Faces after)
    (stops : Word.Stops after) : Token.Stops cursor.tokens := by
  rw [Word.Stops, ← faces.headKind, ← faces.nextKind] at stops
  obtain ⟨current, ahead, names⟩ := cursor
  refine ⟨stops.1, stops.2.1, stops.2.2.1, fun isDot next isNext => ?_⟩
  cases ahead with
  | nil => simp at isNext
  | cons token rest =>
    obtain rfl : token = next := by simpa using isNext
    exact stops.2.2.2 isDot

theorem Cursor.Faces.ended {cursor : Cursor} {words : List Word} (faces : cursor.Faces words)
    (content : ∀ word ∈ words, word.kind ≠ .eof) : cursor.Ended := by
  obtain ⟨others, tail, whole, others', tail'⟩ := List.map_eq_append_iff.mp faces
  obtain ⟨last, rfl, isEnd⟩ := List.map_eq_singleton_iff.mp tail'
  refine ⟨others, last, whole, congrArg Word.kind isEnd, fun token member => ?_⟩
  exact content token.word (others' ▸ List.mem_map_of_mem member)

theorem Token.same_of_words {tokens tokens' : List Token}
    (same : tokens.map word = tokens'.map word) : List.Forall₂ Same tokens tokens' := by
  rw [← List.forall₂_eq_eq_eq, List.forall₂_map_left_iff, List.forall₂_map_right_iff] at same
  exact same.imp fun _ _ same =>
    ⟨(congrArg Word.kind same).symm, fun _ => (congrArg Word.text same).symm⟩

theorem Token.words_content {source : String} {word : Word} (member : word ∈ words source) :
    word.kind ≠ .eof := by
  obtain ⟨token, kept, rfl⟩ := List.mem_map.mp member
  have content := (List.mem_filter.mp kept).2
  simp only [TokenKind.isContent, Bool.and_eq_true, bne_iff_ne] at content
  exact content.2

namespace Operand

/-- The words of an operand. -/
def words (operand : Operand) : List Word := Token.words operand.text

/-- The operand, perhaps elsewhere. -/
def At (operand : Operand) (e : Expr .parsed) : Prop :=
  e.relocate Span.forget = operand.value.relocate Span.forget

theorem Run.starts {operand : Operand} {fuel : Nat} {start stop : Cursor} {front : List Token}
    (run : operand.Run fuel start stop front) :
    start.current.kind ≠ .ifKw ∧ start.current.kind ≠ .foreachKw := by
  obtain ⟨last, isEnd, tokens⟩ := run.tokens
  have closed := operand.closed
  rw [← run.words] at closed
  cases front with
  | nil =>
    obtain ⟨rfl, -⟩ := List.cons.inj tokens
    simp [isEnd]
  | cons first front =>
    obtain ⟨current, -⟩ := List.cons.inj tokens
    rw [current]
    exact closed

theorem exists_local (operand : Operand) (fuel : Nat) (enough : 8 * operand.words.length + 2 ≤ fuel) :
    ∃ front value, front.map Token.word = operand.words ∧ operand.At value ∧
      ∀ tail : Cursor, Token.Stops tail.tokens → ∃ start stop : Cursor,
        start.tokens = front ++ tail.tokens ∧ stop.tokens = tail.tokens ∧
          Reader.operand fuel start = .ok value stop := by
  obtain ⟨fuel₀, start, stop, front, run⟩ := operand.exists_run
  obtain ⟨last, isEnd, tokens⟩ := run.tokens
  have left : start.left = operand.words.length := by
    have lengths := congrArg List.length tokens
    rw [words, ← run.words, List.length_map]
    simpa [Cursor.tokens, Cursor.left] using lengths
  have refl : List.Forall₂ Token.Same start.tokens start.tokens :=
    List.forall₂_same.mpr fun token _ => .refl token
  obtain ⟨value, stop', ran, same, stopLeft, moved⟩ :=
    Reader.operand_same refl run.ended run.ended run.low (left ▸ enough) run.ran
  obtain ⟨ended, -⟩ :=
    Reader.operand_parted fuel₀ run.starts start operand.value stop run.ended rfl run.ran
  obtain ⟨-, taken, split, again⟩ :=
    Reader.operand_parted fuel run.starts start value stop' run.ended rfl ran
  -- Both runs stop at the end.
  have atEnd : stop'.tokens = [stop'.current] := by
    have none : stop.left = 0 := congrArg List.length (List.cons.inj (ended.tokens_eq run.isEnd)).2
    rw [none] at stopLeft
    rw [Cursor.tokens, List.length_eq_zero_iff.mp stopLeft]
  obtain ⟨rfl, isLast⟩ : front = taken ∧ last = stop'.current := by
    rw [tokens, atEnd] at split
    simpa using List.append_inj' split rfl
  refine ⟨front, value, run.words, same, fun tail stops => ?_⟩
  obtain ⟨before, beforeTokens, beforeNames⟩ := Cursor.exists_tokens front tail start.names
  refine ⟨before, ⟨tail.current, tail.ahead, stop'.names⟩, beforeTokens, rfl, ?_⟩
  refine again before _ ?_ beforeTokens beforeNames rfl (.inr ⟨?_, stops⟩)
  · cases front with
    | nil =>
      have none : start.left = 0 := congrArg List.length (List.cons.inj tokens).2
      omega
    | cons first front =>
      exact (List.cons.inj beforeTokens).1.trans (List.cons.inj tokens).1.symm
  · rw [atEnd, ← isLast, Token.Stops]
    simp [isEnd]

theorem reads_before (operand : Operand) {fuel : Nat} {after : List Word}
    (content : ∀ word ∈ after, word.kind ≠ .eof) (stops : Word.Stops after)
    (enough : 8 * (operand.words.length + after.length) + 2 ≤ fuel) :
    (Reader.operand fuel).Reads operand.words after operand.At := by
  intro cursor faces
  obtain ⟨front, value, isFront, same, reads⟩ :=
    operand.exists_local fuel (by omega)
  have allContent : ∀ word ∈ operand.words ++ after, word.kind ≠ .eof := by
    intro word member
    rcases List.mem_append.mp member with member | member
    · exact Token.words_content member
    · exact content word member
  have ended := faces.ended allContent
  -- The tokens of the operand and those that come after it.
  have whole : cursor.tokens.map Token.word = operand.words ++ (after ++ [Word.final]) := by
    rw [← List.append_assoc]
    exact faces
  obtain ⟨front', rest, split, isFront', isRest⟩ := List.map_eq_append_iff.mp whole
  obtain ⟨tail, tailTokens⟩ : ∃ tail : Cursor, tail.tokens = rest := by
    cases rest with
    | nil => simp at isRest
    | cons token rest => exact ⟨⟨token, rest, cursor.names⟩, rfl⟩
  have tailFaces : tail.Faces after := by
    rw [← tailTokens] at isRest
    exact isRest
  obtain ⟨start, stop, startTokens, stopTokens, ran⟩ := reads tail (tailFaces.stops stops)
  have startFaces : start.Faces (operand.words ++ after) := by
    change start.tokens.map Token.word = _
    rw [startTokens, List.map_append, isFront, List.append_assoc, ← tailFaces]
    rfl
  have words : start.tokens.map Token.word = cursor.tokens.map Token.word := startFaces.trans faces.symm
  have left : start.left = operand.words.length + after.length := by
    have lengths := congrArg List.length startFaces
    simp only [List.length_map, List.length_cons, List.length_append, List.length_nil] at lengths
    exact Nat.succ.inj lengths
  obtain ⟨e, stop', ran', same', stopLeft, -⟩ := Reader.operand_same (Token.same_of_words words)
    (startFaces.ended allContent) ended (left ▸ enough) (left ▸ enough) ran
  obtain ⟨-, taken, split', -⟩ := Reader.Sees.operand fuel cursor e stop' ended trivial ran'
  have stopsThere : stop'.tokens = tail.tokens := by
    have lengths : stop'.tokens.length = rest.length := by
      rw [← tailTokens, ← stopTokens]
      exact congrArg Nat.succ stopLeft
    rw [tailTokens]
    exact (List.append_inj' (split'.symm.trans split) lengths).2
  refine ⟨e, stop', ran', ?_, same'.trans same⟩
  change stop'.tokens.map Token.word = _
  rw [stopsThere]
  exact tailFaces

/-- The words of the operands after the first, each with its operator before it. -/
def linked (links : List (Operator × Operand)) : List Word :=
  links.flatMap fun (op, operand) => op.kinds.map Word.of ++ operand.words

@[simp] theorem linked_nil : linked [] = [] := rfl

@[simp] theorem linked_cons (op : Operator) (operand : Operand) (links : List (Operator × Operand)) :
    linked ((op, operand) :: links) =
      op.kinds.map Word.of ++ (operand.words ++ linked links) := by
  simp [linked]

@[simp] theorem linked_append (links more : List (Operator × Operand)) :
    linked (links ++ more) = linked links ++ linked more := by
  simp [linked]

theorem linked_content {links : List (Operator × Operand)} {word : Word}
    (member : word ∈ linked links) : word.kind ≠ .eof := by
  obtain ⟨⟨op, operand⟩, -, member⟩ := List.mem_flatMap.mp member
  rcases List.mem_append.mp member with member | member
  · obtain ⟨kind, isKind, rfl⟩ := List.mem_map.mp member
    have solid : ∀ kind ∈ op.kinds, kind ≠ .eof := by cases op <;> decide
    exact solid kind isKind
  · exact Token.words_content member

theorem linked_stops (links : List (Operator × Operand)) : Word.Stops (linked links) := by
  cases links with
  | nil => exact ⟨nofun, nofun, nofun, nofun⟩
  | cons link links =>
    obtain ⟨op, operand⟩ := link
    rw [linked_cons]
    cases op <;> exact ⟨nofun, nofun, nofun, nofun⟩

/-- The same operators with operands that are these, perhaps elsewhere. -/
abbrev AllAt (links : List (Operator × Operand)) (read : List (Operator × Expr .parsed)) : Prop :=
  List.Forall₂ (fun link link' => link'.1 = link.1 ∧ link.2.At link'.2) links read

def isTighter (floor : Nat) (link : Operator × Operand) : Bool := decide (floor < link.1.precedence)

theorem AllAt.tighter {links : List (Operator × Operand)} {read : List (Operator × Expr .parsed)}
    (all : AllAt links read) {floor : Nat} (tighter : ∀ link ∈ links, floor < link.1.precedence) :
    ∀ link ∈ read, floor < link.1.precedence := by
  induction all with
  | nil => simp
  | cons first _ ih =>
    obtain ⟨here, later⟩ := List.forall_mem_cons.mp tighter
    exact List.forall_mem_cons.mpr ⟨first.1 ▸ here, ih later⟩

theorem AllAt.looser {links : List (Operator × Operand)} {read : List (Operator × Expr .parsed)}
    {floor bound : Nat}
    (all : AllAt ((links.dropWhile (isTighter bound)).takeWhile (isTighter floor)) read) :
    ∀ link ∈ read.head?, link.1.precedence ≤ bound := by
  have stops := List.head?_dropWhile_not (isTighter bound) links
  generalize links.dropWhile (isTighter bound) = loose at all stops
  cases loose with
  | nil =>
    cases all
    simp
  | cons first loose =>
    have looser : first.1.precedence ≤ bound := by simpa [isTighter] using stops
    by_cases taken : isTighter floor first = true
    · rw [List.takeWhile_cons_of_pos taken] at all
      cases all with
      | cons same _ => simpa [same.1] using looser
    · rw [List.takeWhile_cons_of_neg taken] at all
      cases all
      simp

theorem takeWhile_isTighter {op : Operator} {floor : Nat} (operand : Operand)
    (tighter : floor < op.precedence) (rest : List (Operator × Operand)) :
    ((op, operand) :: rest).takeWhile (isTighter floor) =
        (op, operand) :: (rest.takeWhile (isTighter op.precedence) ++
          (rest.dropWhile (isTighter op.precedence)).takeWhile (isTighter floor)) ∧
      ((op, operand) :: rest).dropWhile (isTighter floor) =
        (rest.dropWhile (isTighter op.precedence)).dropWhile (isTighter floor) := by
  have here : isTighter floor (op, operand) = true := decide_eq_true tighter
  have within : ∀ link ∈ rest.takeWhile (isTighter op.precedence), isTighter floor link = true := by
    intro link member
    have above : isTighter op.precedence link = true := List.mem_takeWhile_imp member
    exact decide_eq_true (Nat.lt_trans tighter (of_decide_eq_true above))
  have split := List.takeWhile_append_dropWhile (p := isTighter op.precedence) (l := rest)
  rw [List.takeWhile_cons_of_pos here, List.dropWhile_cons_of_pos here]
  constructor
  · conv => lhs; rw [← split]
    rw [List.takeWhile_append_of_pos within]
  · conv => lhs; rw [← split]
    rw [List.dropWhile_append_of_pos within]

def Grows (links : List (Operator × Operand)) (first e : Expr .parsed) : Prop :=
  ∃ read, AllAt links read ∧ e = OpTree.grown first read

theorem Grows.nil (first : Expr .parsed) : Grows [] first first :=
  ⟨[], .nil, by simp [OpTree.grown, OpTree.expr]⟩

theorem operators_turn {op : Operator} {operand : Operand} {lhs : Expr .parsed} {fuel floor : Nat}
    {tight more left : List (Operator × Operand)} {good : Expr .parsed → Prop}
    (tighter : floor < op.precedence)
    (enough : 8 * (operand.words.length + (linked (tight ++ (more ++ left))).length) + 2 ≤ fuel)
    (right : ∀ first, operand.At first →
      (Reader.operators fuel first op.precedence).Reads (linked tight) (linked (more ++ left))
        (Grows tight first))
    (rest : ∀ first rhs, operand.At first → Grows tight first rhs →
      (Reader.operators fuel (.binary op lhs rhs (lhs.span.join rhs.span) ()) floor).Reads
        (linked more) (linked left) good) :
    (Reader.operators (fuel + 1) lhs floor).Reads (linked ((op, operand) :: (tight ++ more)))
      (linked left) good := by
  have found : Reader.operator?.Reads [] (linked ((op, operand) :: (tight ++ more)) ++ linked left)
      (· = some op) := by
    rw [linked_cons, List.append_assoc]
    exact Reader.operator?_some op _
  rw [Reader.operators]
  refine found.look fun _ isOp => ?_
  subst isOp
  simp only [if_neg (Nat.not_le_of_lt tighter)]
  rw [linked_cons, linked_append]
  have later : (linked tight ++ linked more) ++ linked left = linked (tight ++ (more ++ left)) := by simp
  refine .bind (Reader.takeOperator_reads op _) fun _ _ => ?_
  refine .bind ?_ fun first isFirst => .bind ?_ fun rhs isRhs => rest first rhs isFirst isRhs
  · rw [later]
    exact operand.reads_before (fun _ => linked_content) (linked_stops _) enough
  · rw [← linked_append]
    exact right first isFirst

/-- The operator loop takes the operators that bind tighter than `floor`, up to the first that does
not. The induction is on the number of links: the right side of the first operator takes some of them,
and the loop goes on with the others. -/
theorem operators_read (links : List (Operator × Operand)) (fuel : Nat) (lhs : Expr .parsed)
    (floor : Nat) (enough : 8 * (linked links).length + 1 ≤ fuel) :
    (Reader.operators fuel lhs floor).Reads (linked (links.takeWhile (isTighter floor)))
      (linked (links.dropWhile (isTighter floor))) (Grows (links.takeWhile (isTighter floor)) lhs) := by
  induction size : links.length using Nat.strongRecOn generalizing links fuel lhs floor with
  | ind n ih =>
    match links with
    | [] =>
      have ends : Reader.Ends [] := rfl
      exact (Reader.operators_stop lhs floor (by omega) ends).mono fun _ same => same ▸ .nil lhs
    | (op, operand) :: rest =>
      obtain ⟨fuel, rfl⟩ : ∃ n, fuel = n + 1 := ⟨fuel - 1, by omega⟩
      by_cases looser : op.precedence ≤ floor
      · have stays : isTighter floor (op, operand) ≠ true := by simpa [isTighter] using looser
        rw [List.takeWhile_cons_of_neg stays, List.dropWhile_cons_of_neg stays, linked_cons,
          Reader.operators]
        refine (Reader.operator?_some op _).last fun _ isOp => ?_
        subst isOp
        simp only [if_pos looser]
        exact .pure (.nil lhs)
      · have tighter := Nat.lt_of_not_le looser
        obtain ⟨taken, left⟩ := takeWhile_isTighter operand tighter rest
        rw [taken, left]
        have tight := rest.takeWhile_append_dropWhile (p := isTighter op.precedence)
        have more := (rest.dropWhile (isTighter op.precedence)).takeWhile_append_dropWhile
          (p := isTighter floor)
        have positive : 0 < op.kinds.length := by cases op <;> decide
        have fewer : (rest.dropWhile (isTighter op.precedence)).length ≤ rest.length :=
          (List.dropWhile_sublist _).length_le
        have fewerWords : (linked (rest.dropWhile (isTighter op.precedence))).length ≤
            (linked rest).length := by
          conv => rhs; rw [← tight, linked_append, List.length_append]
          omega
        simp only [linked_cons, List.length_append, List.length_map, List.length_cons] at enough size
        refine operators_turn tighter ?_ (fun first isFirst => ?_) fun first rhs isFirst isRhs => ?_
        · rw [more, tight]
          omega
        · rw [more]
          exact ih rest.length (by omega) rest fuel first op.precedence (by omega) rfl
        · obtain ⟨read, all, rfl⟩ := isRhs
          refine (ih _ (by omega) _ fuel _ floor (by omega) rfl).mono fun e ⟨read', all', isGrown⟩ => ?_
          subst isGrown
          refine ⟨(op, first) :: read ++ read', .cons ⟨rfl, isFirst⟩ (List.rel_append all all'), ?_⟩
          refine (OpTree.grown_cons lhs first (all.tighter fun link member => ?_) read' all'.looser).symm
          have above : isTighter op.precedence link = true := List.mem_takeWhile_imp member
          exact of_decide_eq_true above

theorem expr_reads (first : Operand) (links : List (Operator × Operand)) {fuel : Nat}
    (enough : 8 * (first.words.length + (linked links).length) + 3 ≤ fuel) :
    (Reader.expr fuel).Reads (first.words ++ linked links) []
      fun e => ∃ read, first.At read ∧ Grows links read e := by
  obtain ⟨fuel, rfl⟩ : ∃ n, fuel = n + 1 := ⟨fuel - 1, by omega⟩
  have tighter : ∀ link ∈ links, isTighter 0 link = true := by
    rintro ⟨op, operand⟩ -
    cases op <;> rfl
  have all : links.takeWhile (isTighter 0) = links := List.takeWhile_eq_self_iff.mpr tighter
  have none : links.dropWhile (isTighter 0) = [] := List.dropWhile_eq_nil_iff.mpr tighter
  rw [Reader.expr]
  have operand : (Reader.operand fuel).Reads first.words (linked links ++ []) first.At := by
    rw [List.append_nil]
    exact first.reads_before (fun _ => linked_content) (linked_stops links) (by omega)
  refine operand.bind fun read isRead => ?_
  have operators := operators_read links fuel read 0 (by omega)
  rw [all, none] at operators
  exact operators.mono fun e grows => ⟨read, isRead, grows⟩

end Operand

/-! ### Whole texts -/

/-- A text without lexical errors that has these words, with any blanks and comments between them. -/
structure Spells (source : String) (words : List Word) : Prop where
  clean : ∀ token ∈ Token.scan source, token.kind.isError = false
  words : Token.words source = words

theorem Spells.parseExpr {source : String} {words : List Word} (spells : Spells source words)
    {good : Expr .parsed → Prop}
    (reads : ∀ fuel, 8 * words.length + 3 ≤ fuel → (Reader.expr fuel).Reads words [] good)
    (names : NameTable) : ∃ e, (LetChain.parseExpr source names).1 = .ok e ∧ good e := by
  obtain ⟨last, isEnd, solid⟩ := Token.solid_scan spells.clean
  obtain ⟨first, rest, split, start, ended⟩ :=
    Cursor.ofTokens_eq (Token.scan_cuts source).ended names.register
  have enough := Cursor.ofTokens_left (Token.scan source) names.register
  have tokens : (Cursor.ofTokens (Token.scan source) names.register).tokens =
      (Token.scan source).filter (·.kind.isContent) ++ [last] := by
    rw [start, Cursor.tokens, ← solid, split]
  rw [LetChain.parseExpr, parseWith_eq_kept spells.clean]
  generalize Cursor.ofTokens (Token.scan source) names.register = cursor at *
  generalize 8 * (Token.scan source).length + 16 = fuel at *
  -- The same tokens before an end without text.
  obtain ⟨plain, plainTokens, plainNames⟩ := Cursor.exists_tokens
    ((Token.scan source).filter (·.kind.isContent)) ⟨⟨.eof, last.span, ""⟩, [], names⟩ names
  have mirrors : cursor.Mirrors (.ofName id) plain := by
    have all : List.Forall₂ (Token.Mirrors (.ofName id)) cursor.tokens plain.tokens := by
      rw [tokens, plainTokens]
      refine List.rel_append (List.forall₂_same.mpr fun token _ => .refl token) ?_
      exact .cons ⟨isEnd.symm, fun content => absurd isEnd content, rfl⟩ .nil
    obtain ⟨current, ahead⟩ := List.forall₂_cons.mp all
    exact ⟨current, ahead⟩
  have faces : plain.Faces words := by
    change plain.tokens.map Token.word = _
    rw [plainTokens, List.map_append, ← spells.words]
    rfl
  have left : cursor.left = words.length := by
    have lengths := congrArg List.length tokens
    rw [← spells.words, Token.words, List.length_map]
    simpa [Cursor.tokens, Cursor.left] using lengths
  obtain ⟨e, stop, ran, stops, isGood⟩ := reads fuel (by omega) plain (by simpa using faces)
  have whole : (Reader.expr fuel <* Reader.expect .eof) plain = .ok e stop.step := by
    have atEnd : stop.current.kind = .eof := stops.headKind
    rw [seqLeft_eq_bind]
    refine Reader.bind_eq_ok.mpr ⟨e, stop, ran, Reader.bind_eq_ok.mpr ⟨stop.current, stop.step, ?_, rfl⟩⟩
    rw [Reader.expect_eq, if_pos atEnd]
  obtain ⟨result, -⟩ := Reader.Uniform.expression.agree mirrors ended enough enough
  refine ⟨e, ?_, isGood⟩
  rw [whole] at result
  cases outcome : (Reader.kept ((Reader.expr fuel <* Reader.expect .eof) cursor)).1 with
  | error error =>
    rw [outcome] at result
    cases result
  | ok e' =>
    rw [outcome] at result
    have same : e = e'.relocate id := Except.ok.inj result
    rw [same, e'.relocate_id]

/-- Operands with operators between them are read to their end as the tree that comes from splitting
at the last of the loosest operators. The operands are in it as they are read alone, from left to right
and with the operators between them. -/
theorem parseExpr_climbs (first : Operand) (links : List (Operator × Operand)) {source : String}
    (spells : Spells source (first.words ++ Operand.linked links)) (names : NameTable) :
    ∃ read reads, first.At read ∧ Operand.AllAt links reads ∧
      (parseExpr source names).1 = .ok (OpTree.reference read reads).expr ∧
      (OpTree.reference read reads).inorder = (read, reads) := by
  obtain ⟨e, parsed, read, isFirst, reads, areLinks, rfl⟩ := spells.parseExpr (fun fuel enough =>
    Operand.expr_reads first links (by simpa using enough)) names
  exact ⟨read, reads, isFirst, areLinks, parsed, OpTree.inorder_reference read reads⟩

def memberOperand : Operand where
  text := "s.f"
  names := .empty
  value := .member (.named ⟨"s", .ofBounds 0 1⟩ () (.ofBounds 0 1) ()) ⟨"f", .ofBounds 2 3⟩ ()
    (.ofBounds 0 3) ()
  reads := by cbv
  closed := by cbv; simp

def parenOperand : Operand where
  text := "(k)"
  names := .empty
  value := .named ⟨"k", .ofBounds 1 2⟩ () (.ofBounds 1 2) ()
  reads := by cbv
  closed := by cbv; simp

def callOperand : Operand where
  text := "g(n)"
  names := .empty
  value := .call ⟨"g", .ofBounds 0 1⟩ [.named ⟨"n", .ofBounds 2 3⟩ () (.ofBounds 2 3) ()] ()
    (.ofBounds 0 4) ()
  reads := by cbv
  closed := by cbv; simp

theorem parseExpr_climbs_mixed :
    let links : List (Operator × Operand) :=
      [(.sub, parenOperand), (.mul, callOperand), (.eq, parenOperand)]
    Spells "s.f - (k) * g(n) == (k)" (memberOperand.words ++ Operand.linked links) ∧
      ∃ read reads, memberOperand.At read ∧ Operand.AllAt links reads ∧
        (parseExpr "s.f - (k) * g(n) == (k)" .empty).1 = .ok (OpTree.reference read reads).expr ∧
        (OpTree.reference read reads).inorder = (read, reads) := by
  intro links
  have chars : "s.f - (k) * g(n) == (k)".toList = _ := String.toList_ofList
  have clean : (Token.scan "s.f - (k) * g(n) == (k)").all (!·.kind.isError) = true := by
    rw [Token.scan, chars]
    decide +kernel
  have words : Token.words "s.f - (k) * g(n) == (k)" =
      memberOperand.words ++ Operand.linked links := by cbv
  have spells : Spells "s.f - (k) * g(n) == (k)" (memberOperand.words ++ Operand.linked links) :=
    ⟨by simpa using clean, words⟩
  exact ⟨spells, parseExpr_climbs memberOperand links spells .empty⟩

end LetChain
