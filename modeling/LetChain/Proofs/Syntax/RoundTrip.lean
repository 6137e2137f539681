import LetChain.Proofs.Syntax.Reads
import LetChain.Proofs.Syntax.Spelled

/-! Reading a rendered module gives the module back. Each form of the grammar has a lemma that says
what reading its parts has to give, and the induction over the tree puts the lemmas together. A
reader is given eight times as much fuel as it has words to read. -/

namespace LetChain

namespace Reader

/-! ### Types and bindings -/

def TypeReads (type : TypeRef) : Prop :=
  ∀ (fuel : Nat) (after : List Word), 8 * type.words.length ≤ fuel →
    Word.headKind after ≠ .less → Reads (typeRef fuel) type.words after (·.bare = type.bare)

@[simp] theorem headKind_type (type : TypeRef) (after : List Word) :
    Word.headKind (type.words ++ after) = .identifier := by
  obtain ⟨name, args, span⟩ := type
  cases args <;> rfl

mutual

theorem type_reads : ∀ type : TypeRef, TypeReads type
  | ⟨name, [], _⟩, 0, _, enough, _ => by simp [TypeRef.words] at enough
  | ⟨name, [], _⟩, fuel + 1, after, _, ends => by
    refine .ident_bind fun read isName => .take_no (by simpa using ends) (.pure ?_)
    simp [TypeRef.bare, Ident.bare, isName]
  | ⟨name, first :: rest, _⟩, 0, _, enough, _ => by simp [TypeRef.words] at enough
  | ⟨name, first :: rest, _⟩, fuel + 1, after, enough, _ => by
    rw [TypeRef.words, ← TypeRef.allWords, TypeRef.allWords_eq] at enough ⊢
    simp only [List.length_cons, Word.enclosed_length] at enough
    refine .ident_bind fun read isName => .take_yes rfl ?_
    refine .bind (.list TypeRef.bare (first :: rest) (by decide) (by omega) (by simp) ?_)
      fun args areArgs => .expect_bind rfl fun close _ => .pure ?_
    · intro type member following enough follows
      refine types_read (first :: rest) type member fuel following enough ?_
      rcases follows with follows | follows <;> simp [follows]
    · simp only [TypeRef.bare, Ident.bare, isName, TypeRef.allBare_eq, areArgs]

theorem types_read : ∀ types : List TypeRef, ∀ type ∈ types, TypeReads type
  | [] => by simp
  | first :: rest => List.forall_mem_cons.mpr ⟨type_reads first, types_read rest⟩

end

theorem binding_reads (binding : Binding .parsed) {fuel : Nat} {after : List Word}
    (enough : 8 * binding.words.length ≤ fuel) (ends : Word.headKind after ≠ .less) :
    Reads (Reader.binding fuel) binding.words after (·.bare = binding.bare) := by
  simp only [Binding.words, List.length_cons] at enough
  refine .ident_bind fun name isName => ?_
  refine (type_reads binding.type fuel after (by omega) ends).last fun type isType => .pure ?_
  simp [Binding.bare, Ident.bare, isName, isType]

theorem bindings_read {close : TokenKind}
    (closes : close ≠ .comma ∧ close ≠ .less ∧ close ≠ .identifier)
    (bindings : List (Binding .parsed)) {fuel : Nat} {after : List Word}
    (enough : 8 * (Word.listed (bindings.map Binding.words)).length + 8 ≤ fuel) :
    Reads (separated close (Reader.binding fuel) fuel #[])
      (Word.listed (bindings.map Binding.words)) (.of close :: after)
      fun read => read.map Binding.bare = bindings.map Binding.bare := by
  refine .list Binding.bare bindings closes.1 enough ?_ ?_
  · intro binding _ following
    exact closes.2.2.symm
  · intro binding _ following enough follows
    refine binding_reads binding enough ?_
    rcases follows with follows | follows
    · simp [follows]
    · simpa [follows] using closes.2.1

theorem record_reads (name : Ident) (fields : List (Binding .parsed)) (span : Span) {fuel : Nat}
    {after : List Word} {spell : Float → String}
    (enough : 8 * (Stmt.words spell (.record name fields span ())).length ≤ fuel) :
    Reads (recordDecl fuel) (Stmt.words spell (.record name fields span ())) after
      (·.bare = Stmt.bare (.record name fields span ())) := by
  simp only [Stmt.words, List.length_cons, Word.braces_length] at enough ⊢
  refine .expect_bind rfl fun _ _ => .ident_bind fun read isName => .expect_bind rfl fun _ _ => ?_
  refine .bind (bindings_read (by decide) fields (by omega)) fun read areFields =>
    .expect_bind rfl fun _ _ => .pure ?_
  simp [Stmt.bare, Ident.bare, isName, areFields]

/-! ### Operators and members -/

def continues (kind : TokenKind) : Bool :=
  [.orKw, .andKw, .equals, .bang, .greater, .less, .dot, .plus, .minus, .star, .slash,
    .percent].contains kind

def Ends (after : List Word) : Prop := continues (Word.headKind after) = false

theorem Ends.not_dot {after : List Word} (ends : Ends after) : Word.headKind after ≠ .dot := by
  intro isDot
  rw [Ends, isDot] at ends
  cases ends

theorem members_stop {after : List Word} {fuel : Nat} (base : PExpr) (fueled : 0 < fuel)
    (stops : Word.headKind after = .dot → Word.headKind after.tail ≠ .identifier) :
    Reads (members fuel base) [] after (· = base) := by
  obtain ⟨fuel, rfl⟩ : ∃ n, fuel = n + 1 := ⟨fuel - 1, by omega⟩
  rw [members]
  refine .get_bind fun cursor faces => ?_
  rw [List.nil_append] at faces
  rw [if_neg (by rw [faces.headKind, faces.nextKind]; simpa using stops)]
  exact .pure rfl

theorem members_take {after : List Word} {fuel : Nat} (base : PExpr) (text : String)
    (fueled : 1 < fuel) (stops : Word.headKind after ≠ .dot) :
    Reads (members fuel base) [.of .dot, .name text] after
      (·.bare = .member base.bare ⟨text, default⟩ () default ()) := by
  obtain ⟨fuel, rfl⟩ : ∃ n, fuel = n + 1 := ⟨fuel - 1, by omega⟩
  rw [members]
  refine .get_bind fun cursor faces => ?_
  rw [if_pos (by rw [faces.headKind, faces.nextKind]; simp)]
  refine .advance_bind fun _ _ => .ident_bind fun field isName => ?_
  refine (members_stop _ (by omega) (absurd · stops)).mono fun read isRead => ?_
  simp [isRead, Expr.bare, Ident.bare, isName]

theorem operator?_none {after : List Word} (ends : Ends after) :
    Reads operator? [] after (· = none) := by
  refine .get_bind fun cursor faces => .pure ?_
  rw [List.nil_append] at faces
  rw [faces.headKind]
  rw [Ends] at ends
  split
  all_goals simp_all [continues]

theorem operator?_some (op : Operator) (after : List Word) :
    Reads operator? [] (op.kinds.map Word.of ++ after) (· = some op) := by
  refine .get_bind fun cursor faces => .pure ?_
  rw [List.nil_append] at faces
  rw [faces.headKind, faces.nextKind]
  cases op <;> rfl

theorem takeOperator_reads (op : Operator) (after : List Word) :
    Reads (takeOperator op) (op.kinds.map Word.of) after fun _ => True := by
  cases op with
  | eq | ne | concat => exact .advance_bind fun _ _ => .advance_bind fun _ _ => .pure trivial
  | _ => exact .advance_bind fun _ _ => .pure trivial

theorem operators_stop {after : List Word} {fuel : Nat} (lhs : PExpr) (floor : Nat)
    (fueled : 0 < fuel) (ends : Ends after) : Reads (operators fuel lhs floor) [] after (· = lhs) := by
  obtain ⟨fuel, rfl⟩ : ∃ n, fuel = n + 1 := ⟨fuel - 1, by omega⟩
  rw [operators]
  refine (operator?_none ends).last fun found isNone => ?_
  subst isNone
  exact .pure rfl

/-! ### Operands -/

section Operands

variable {spell : Float → String} {e : PExpr} {words after : List Word} {word : Word} {fuel : Nat}
  {good : PExpr → Prop}

def ExprReads (spell : Float → String) (e : PExpr) : Prop :=
  ∀ (fuel : Nat) (after : List Word), 8 * (e.inner spell).length ≤ fuel →
    Reads (expr fuel) (e.inner spell) (.of .rightParen :: after) (·.bare = e.bare)

theorem expr_of_operand (reads : Reads (operand fuel) words after good) (fueled : 0 < fuel)
    (ends : Ends after) : Reads (expr (fuel + 1)) words after good := by
  rw [expr]
  refine reads.last fun lhs isGood => ?_
  exact (operators_stop lhs 0 fueled ends).mono fun _ same => same ▸ isGood

theorem members_end (base : PExpr) (isGood : good base) (fueled : 0 < fuel) (ends : Ends after) :
    Reads (members fuel base) [] after good :=
  (members_stop base fueled (absurd · ends.not_dot)).mono fun _ same => same ▸ isGood

theorem operand_parens (inside : ExprReads spell e) (enough : 8 * (e.inner spell).length ≤ fuel)
    (rest : ∀ read, read.bare = e.bare → Reads (members fuel read) words after good) :
    Reads (operand (fuel + 1)) (Word.parens (e.inner spell) ++ words) after good := by
  rw [operand, Word.parens, Word.enclosed, List.cons_append, List.append_assoc]
  refine .peek_kind fun token (kind : token.kind = .leftParen) => ?_
  simp only [kind]
  refine .advance_bind fun _ _ => .bind (inside fuel _ enough) fun read isRead => ?_
  exact .expect_bind rfl fun _ _ => rest read isRead

theorem operand_alone (inside : ExprReads spell e) (enough : 8 * (e.inner spell).length + 1 ≤ fuel)
    (stops : Word.headKind after = .dot → Word.headKind after.tail ≠ .identifier) :
    Reads (operand (fuel + 1)) (Word.parens (e.inner spell)) after (·.bare = e.bare) := by
  rw [← List.append_nil (Word.parens _)]
  refine operand_parens inside (by omega) fun read isRead => ?_
  exact (members_stop read (by omega) stops).mono fun _ same => same ▸ isRead

theorem expr_parens (inside : ExprReads spell e) (enough : 8 * (e.inner spell).length + 8 ≤ fuel)
    (ends : Ends after) :
    Reads (expr fuel) (Word.parens (e.inner spell)) after (·.bare = e.bare) := by
  obtain ⟨fuel, rfl⟩ : ∃ n, fuel = n + 2 := ⟨fuel - 2, by omega⟩
  exact expr_of_operand (operand_alone inside (by omega) (absurd · ends.not_dot)) (by omega) ends

inductive Form (fuel : Nat) : TokenKind → Reader PExpr → Prop
  | named : Form fuel .identifier (named fuel)
  | conditional : Form fuel .ifKw (conditional fuel)
  | loop : Form fuel .foreachKw (loop fuel)
  | range : Form fuel .leftBracket (range fuel)
  | block : Form fuel .leftBrace (block fuel >>= fun body => pure (.block body ()))

theorem expr_form {form : Reader PExpr} (isForm : Form fuel word.kind form)
    (reads : Reads form (word :: words) after good) (fueled : 0 < fuel) (ends : Ends after) :
    Reads (expr (fuel + 2)) (word :: words) after good := by
  refine expr_of_operand ?_ (by omega) ends
  rw [operand]
  refine .peek_bind fun token isWord => ?_
  have kind : token.kind = word.kind := congrArg Word.kind isWord
  have rest : Reads (form >>= members fuel) (word :: words) after good :=
    reads.last fun read isGood => members_end read isGood fueled ends
  generalize word.kind = first at kind isForm
  cases isForm with
  | block => simpa only [kind, bind_assoc] using rest
  | _ => simpa only [kind] using rest

end Operands

/-! ### Expressions -/

section Exprs

variable {spell : Float → String} {span : Span}

variable {name : Ident} {args : List PExpr} {fuel : Nat} {after : List Word} {body : PBlock}

theorem inner_pos (spell : Float → String) (e : PExpr) : 0 < (e.inner spell).length := by
  cases e with
  | range _ _ step => cases step <;> simp [Expr.inner]
  | binary =>
    simp only [Expr.inner, List.length_append, Word.parens_length]
    omega
  | _ => simp [Expr.inner]

theorem ExprReads.of {e : PExpr}
    (reads : ∀ (fuel : Nat) (after : List Word), 8 * (e.inner spell).length ≤ fuel + 2 →
      Reads (expr (fuel + 2)) (e.inner spell) (.of .rightParen :: after) (·.bare = e.bare)) :
    ExprReads spell e := by
  intro fuel after enough
  have := inner_pos spell e
  obtain ⟨fuel, rfl⟩ : ∃ n, fuel = n + 2 := ⟨fuel - 2, by omega⟩
  exact reads fuel after enough

theorem number_reads {value : Float} (spelt : Number.SpeltBy spell value) :
    ExprReads spell (.number value span ()) := by
  refine .of fun fuel after enough => ?_
  simp only [Expr.inner, List.length_singleton] at enough
  refine expr_of_operand (.peek_bind fun token isWord => ?_) (by omega) rfl
  have kind : token.kind = .number := congrArg Word.kind isWord
  have text : token.text = spell value := congrArg Word.text isWord
  simp only [kind, text, spelt.2]
  exact .advance_bind fun _ _ => members_end _ rfl (by omega) rfl

theorem string_reads {value : String} : ExprReads spell (.string value span ()) := by
  refine .of fun fuel after enough => ?_
  simp only [Expr.inner, List.length_singleton] at enough
  refine expr_of_operand (.peek_bind fun token isWord => ?_) (by omega) rfl
  have kind : token.kind = .string := congrArg Word.kind isWord
  simp only [kind, Token.content?_quoted isWord]
  exact .advance_bind fun _ _ => members_end _ rfl (by omega) rfl

theorem bool_reads {value : Bool} : ExprReads spell (.bool value span ()) := by
  refine .of fun fuel after enough => ?_
  simp only [Expr.inner, List.length_singleton] at enough
  refine expr_of_operand (.peek_bind fun token isWord => ?_) (by omega) rfl
  have kind : token.kind = if value then .trueKw else .falseKw := congrArg Word.kind isWord
  cases value
  all_goals
    simp only [kind]
    exact .advance_bind fun _ _ => members_end _ rfl (by omega) rfl

theorem named_reads : ExprReads spell (.named name () span ()) := by
  refine .of fun fuel after enough => ?_
  simp only [Expr.inner, List.length_singleton] at enough ⊢
  obtain ⟨fuel, rfl⟩ : ∃ n, fuel = n + 1 := ⟨fuel - 1, by omega⟩
  refine expr_form .named (.ident_bind fun read isName => ?_) (by omega) rfl
  refine .take_no (by simp) (.take_no (by simp) (.pure ?_))
  simp [Expr.bare, Ident.bare, isName]

theorem args_read {close : TokenKind}
    (closes : close ≠ .comma ∧ close ≠ .leftParen ∧ continues close = false)
    (reads : ∀ e ∈ args, ExprReads spell e)
    (enough : 8 * (Word.listed (Expr.allWords spell args)).length + 8 ≤ fuel) :
    Reads (separated close (expr fuel) fuel #[]) (Word.listed (Expr.allWords spell args))
      (.of close :: after) fun read => read.map Expr.bare = args.map Expr.bare := by
  rw [Expr.allWords_eq] at enough ⊢
  refine .list Expr.bare args closes.1 enough ?_ ?_
  · intro e _ following
    exact closes.2.1.symm
  · intro e member following enough follows
    rw [Word.parens_length] at enough
    refine expr_parens (reads e member) (by omega) ?_
    rcases follows with follows | follows
    · rw [Ends, follows]
      rfl
    · rw [Ends, follows]
      exact closes.2.2

theorem call_reads (reads : ∀ e ∈ args, ExprReads spell e) :
    ExprReads spell (.call name args () span ()) := by
  refine .of fun fuel after enough => ?_
  simp only [Expr.inner, List.length_cons, Word.parens_length] at enough ⊢
  obtain ⟨fuel, rfl⟩ : ∃ n, fuel = n + 1 := ⟨fuel - 1, by omega⟩
  refine expr_form .named (.ident_bind fun read isName => .take_yes rfl ?_) (by omega) rfl
  refine .bind (args_read (by decide) reads (by omega)) fun read areArgs => ?_
  refine .expect_bind rfl fun _ _ => .pure ?_
  simp only [Expr.bare, Ident.bare, isName, Expr.allBare_eq, areArgs]

theorem construct_reads (reads : ∀ e ∈ args, ExprReads spell e) :
    ExprReads spell (.construct name args () span ()) := by
  refine .of fun fuel after enough => ?_
  simp only [Expr.inner, List.length_cons, Word.braces_length] at enough ⊢
  obtain ⟨fuel, rfl⟩ : ∃ n, fuel = n + 1 := ⟨fuel - 1, by omega⟩
  refine expr_form .named (.ident_bind fun read isName => ?_) (by omega) rfl
  refine .take_no (by simp) (.take_yes rfl ?_)
  refine .bind (args_read (by decide) reads (by omega)) fun read areArgs => ?_
  refine .expect_bind rfl fun _ _ => .pure ?_
  simp only [Expr.bare, Ident.bare, isName, Expr.allBare_eq, areArgs]

theorem member_reads {base : PExpr} {field : Ident} (reads : ExprReads spell base) :
    ExprReads spell (.member base field () span ()) := by
  refine .of fun fuel after enough => ?_
  simp only [Expr.inner, List.length_append, Word.parens_length, List.length_cons,
    List.length_nil] at enough ⊢
  refine expr_of_operand (operand_parens reads (by omega) fun read isBase => ?_) (by omega) rfl
  refine (members_take read field.text (by omega) (by simp)).mono fun whole isWhole => ?_
  simp only [isWhole, isBase, Expr.bare, Ident.bare]

theorem binary_reads {op : Operator} {lhs rhs : PExpr} (left : ExprReads spell lhs)
    (right : ExprReads spell rhs) : ExprReads spell (.binary op lhs rhs span ()) := by
  refine .of fun fuel after enough => ?_
  simp only [Expr.inner, List.length_append, Word.parens_length, List.append_assoc] at enough ⊢
  obtain ⟨fuel, rfl⟩ : ∃ n, fuel = n + 1 := ⟨fuel - 1, by omega⟩
  -- The point of a concatenation does not begin a member: another point follows it.
  have stops (more : List Word) : Word.headKind (op.kinds.map Word.of ++ more) = .dot →
      Word.headKind (op.kinds.map Word.of ++ more).tail ≠ .identifier := by
    cases op <;> simp [Operator.kinds]
  have binds : ¬op.precedence ≤ 0 := by cases op <;> decide
  have ends : Ends (.of .rightParen :: after) := rfl
  rw [expr]
  refine .bind (operand_alone left (by omega) ?_) fun lhs' isLeft => ?_
  · rw [List.append_assoc]
    exact stops _
  rw [operators]
  refine .look (by rw [List.append_assoc]; exact operator?_some op _) fun found isOp => ?_
  subst isOp
  simp only [if_neg binds]
  refine .bind (takeOperator_reads op _) fun _ _ => ?_
  refine .last (operand_alone right (by omega) (by simp)) fun rhs' isRight => ?_
  refine (operators_stop _ _ (by omega) ends).last fun rhs'' same => ?_
  subst same
  refine (operators_stop _ _ (by omega) ends).mono fun read same => ?_
  simp only [same, Expr.bare, isLeft, isRight]

theorem range_reads {first limit : PExpr} (isFirst : ExprReads spell first)
    (isLimit : ExprReads spell limit) : ExprReads spell (.range first limit none span ()) := by
  refine .of fun fuel after enough => ?_
  simp only [Expr.inner, Word.enclosed_length, List.length_append, Word.parens_length,
    List.length_cons] at enough
  obtain ⟨fuel, rfl⟩ : ∃ n, fuel = n + 1 := ⟨fuel - 1, by omega⟩
  simp only [Expr.inner, Word.enclosed, List.append_assoc, List.cons_append]
  refine expr_form .range (.expect_bind rfl fun _ _ => ?_) (by omega) rfl
  refine .bind (expr_parens isFirst (by omega) rfl) fun first' sameFirst => ?_
  refine .expect_bind rfl fun _ _ => ?_
  refine .bind (expr_parens isLimit (by omega) rfl) fun limit' sameLimit => ?_
  refine .take_no (by simp) (.expect_bind rfl fun _ _ => .pure ?_)
  simp only [Expr.bare, sameFirst, sameLimit]

theorem rangeStep_reads {first limit step : PExpr} (isFirst : ExprReads spell first)
    (isLimit : ExprReads spell limit) (isStep : ExprReads spell step) :
    ExprReads spell (.range first limit (some step) span ()) := by
  refine .of fun fuel after enough => ?_
  simp only [Expr.inner, Word.enclosed_length, List.length_append, Word.parens_length,
    List.length_cons] at enough
  obtain ⟨fuel, rfl⟩ : ∃ n, fuel = n + 1 := ⟨fuel - 1, by omega⟩
  simp only [Expr.inner, Word.enclosed, List.append_assoc, List.cons_append]
  refine expr_form .range (.expect_bind rfl fun _ _ => ?_) (by omega) rfl
  refine .bind (expr_parens isFirst (by omega) rfl) fun first' sameFirst => ?_
  refine .expect_bind rfl fun _ _ => ?_
  refine .bind (expr_parens isLimit (by omega) rfl) fun limit' sameLimit => .take_yes rfl ?_
  rw [bind_map_left]
  refine .bind (expr_parens isStep (by omega) rfl) fun step' sameStep => ?_
  refine .expect_bind rfl fun _ _ => .pure ?_
  simp only [Expr.bare, sameFirst, sameLimit, sameStep]

def BlockReads (spell : Float → String) (body : PBlock) : Prop :=
  ∀ (fuel : Nat) (after : List Word), 8 * (body.inner spell).length + 5 ≤ fuel →
    Reads (block fuel) (Word.braces (body.inner spell)) after (·.bare = body.bare)

theorem expr_braces (isBody : BlockReads spell body)
    (enough : 8 * (body.inner spell).length + 8 ≤ fuel) (ends : Ends after) :
    Reads (expr fuel) (Word.braces (body.inner spell)) after
      fun read => ∃ body', read = .block body' () ∧ body'.bare = body.bare := by
  obtain ⟨fuel, rfl⟩ : ∃ n, fuel = n + 2 := ⟨fuel - 2, by omega⟩
  refine expr_form .block ?_ (by omega) ends
  exact (isBody fuel after (by omega)).last fun body' same => .pure ⟨body', rfl, same⟩

theorem blockExpr_reads (isBody : BlockReads spell body) :
    ExprReads spell (.block body ()) := by
  refine .of fun fuel after enough => ?_
  simp only [Expr.inner, Word.braces_length] at enough ⊢
  have ends : Ends (.of .rightParen :: after) := rfl
  refine (expr_braces isBody (by omega) ends).mono fun read isRead => ?_
  obtain ⟨body', rfl, same⟩ := isRead
  simp only [Expr.bare, same]

theorem body_reads (isBody : BlockReads spell body)
    (enough : 8 * (body.inner spell).length + 8 ≤ fuel) (ends : Ends after) :
    Reads (expr fuel) (Word.braces (body.inner spell)) after
      fun read => (asBlock read).bare = body.bare := by
  refine (expr_braces isBody enough ends).mono fun read isRead => ?_
  obtain ⟨body', rfl, same⟩ := isRead
  exact same

theorem ifOnly_reads {cond : PExpr} {yes : PBlock} (isCond : ExprReads spell cond)
    (isYes : BlockReads spell yes) : ExprReads spell (.ifOnly cond yes span ()) := by
  refine .of fun fuel after enough => ?_
  simp only [Expr.inner, List.length_append, List.length_cons, Word.parens_length,
    Word.braces_length] at enough
  obtain ⟨fuel, rfl⟩ : ∃ n, fuel = n + 1 := ⟨fuel - 1, by omega⟩
  simp only [Expr.inner, List.cons_append]
  refine expr_form .conditional (.expect_bind rfl fun _ _ => ?_) (by omega) rfl
  refine .bind (expr_parens isCond (by omega) rfl) fun cond' sameCond => ?_
  refine .expect_bind rfl fun _ _ => ?_
  refine .last (body_reads isYes (by omega) rfl) fun yes' sameYes => ?_
  refine .take_no (by simp) (.pure ?_)
  simp only [Expr.bare, sameCond, sameYes]

theorem ifElse_reads {cond : PExpr} {yes no : PBlock} (isCond : ExprReads spell cond)
    (isYes : BlockReads spell yes) (isNo : BlockReads spell no) :
    ExprReads spell (.ifElse cond yes no span ()) := by
  refine .of fun fuel after enough => ?_
  simp only [Expr.inner, List.length_append, List.length_cons, Word.parens_length,
    Word.braces_length] at enough
  obtain ⟨fuel, rfl⟩ : ∃ n, fuel = n + 1 := ⟨fuel - 1, by omega⟩
  simp only [Expr.inner, List.append_assoc, List.cons_append]
  refine expr_form .conditional (.expect_bind rfl fun _ _ => ?_) (by omega) rfl
  refine .bind (expr_parens isCond (by omega) rfl) fun cond' sameCond => ?_
  refine .expect_bind rfl fun _ _ => ?_
  refine .bind (body_reads isYes (by omega) rfl) fun yes' sameYes => .take_yes rfl ?_
  refine .last (body_reads isNo (by omega) rfl) fun no' sameNo => .pure ?_
  simp only [Expr.bare, sameCond, sameYes, sameNo]

theorem foreach_reads {element : Ident} {elementType : TypeRef} {source : PExpr}
    (isSource : ExprReads spell source) (isBody : BlockReads spell body) :
    ExprReads spell (.foreach element elementType source body () span ()) := by
  refine .of fun fuel after enough => ?_
  simp only [Expr.inner, List.length_append, List.length_cons, Word.parens_length,
    Word.braces_length] at enough
  obtain ⟨fuel, rfl⟩ : ∃ n, fuel = n + 1 := ⟨fuel - 1, by omega⟩
  simp only [Expr.inner, List.append_assoc, List.cons_append]
  refine expr_form .loop (.expect_bind rfl fun _ _ => ?_) (by omega) rfl
  refine .ident_bind fun name isName => ?_
  refine .bind (type_reads elementType fuel _ (by omega) (by simp)) fun type sameType => ?_
  refine .expect_bind rfl fun _ _ => ?_
  refine .bind (expr_parens isSource (by omega) rfl) fun source' sameSource => ?_
  refine .expect_bind rfl fun _ _ => ?_
  refine .last (body_reads isBody (by omega) rfl) fun body' sameBody => .pure ?_
  simp only [Expr.bare, Ident.bare, isName, sameType, sameSource, sameBody]

end Exprs

/-! ### Statements -/

section Stmts

variable {spell : Float → String} {span : Span}

def StmtEnds (after : List Word) : Prop := Ends after ∧ Word.headKind after ≠ .whereKw

def StmtReads (spell : Float → String) (stmt : PStmt) : Prop :=
  ∀ (fuel : Nat) (after : List Word), 8 * (stmt.words spell).length < fuel → StmtEnds after →
    Reads (Reader.stmt fuel) (stmt.words spell) after (·.bare = stmt.bare)

theorem stmtEnds_words (stmt : PStmt) (after : List Word) :
    StmtEnds (stmt.words spell ++ after) := by
  cases stmt <;> exact ⟨rfl, by simp [Stmt.words]⟩

theorem chain_reads : ∀ (bodies : List PExpr) (fuel : Nat) (after : List Word) (done : Array PExpr)
    (span : Span), (∀ e ∈ bodies, ExprReads spell e) →
    8 * ((Expr.allWords spell bodies).flatMap fun words => .of .whereKw :: words).length < fuel →
    StmtEnds after →
    Reads (chain fuel done span)
      ((Expr.allWords spell bodies).flatMap fun words => .of .whereKw :: words) after
      fun read => read.1.map Expr.bare = (done.toList ++ bodies).map Expr.bare
  | [], fuel + 1, after, done, span, _, _, ends => .take_no ends.2 (.pure (by simp))
  | first :: rest, fuel + 1, after, done, span, reads, enough, ends => by
    simp only [Expr.allWords, List.flatMap_cons, List.length_append, List.length_cons,
      Word.parens_length, List.cons_append] at enough ⊢
    refine .take_yes rfl (.bind (expr_parens (reads first (by simp)) (by omega) ?_) ?_)
    · cases rest with
      | nil => exact ends.1
      | cons next rest => rfl
    · intro first' same
      have later := chain_reads rest fuel after (done.push first') (span.join first'.span)
        (fun e member => reads e (by simp [member])) (by omega) ends
      refine later.mono fun read isRead => ?_
      simpa [same] using isRead

theorem let_reads {name : Ident} {type : TypeRef} {first : PExpr} {chained : List PExpr}
    (isFirst : ExprReads spell first) (assigns : first.isSelfAssigning = false)
    (isChained : ∀ e ∈ chained, ExprReads spell e) :
    StmtReads spell (.letIn name type first chained span ()) := by
  intro fuel after enough ends
  simp only [Stmt.words, List.length_append, List.length_cons, Word.parens_length] at enough
  obtain ⟨fuel, rfl⟩ : ∃ n, fuel = n + 2 := ⟨fuel - 2, by omega⟩
  simp only [Stmt.words, List.append_assoc, List.cons_append]
  refine .peek_kind fun token (kind : token.kind = .letKw) => ?_
  simp only [kind]
  refine .expect_bind rfl fun _ _ => .ident_bind fun name' isName => ?_
  refine .bind (type_reads type fuel _ (by omega) (by simp)) fun type' sameType => ?_
  refine .expect_bind rfl fun _ _ => ?_
  refine .bind (expr_parens isFirst (by omega) ?_) fun first' sameFirst => ?_
  · cases chained with
    | nil => exact ends.1
    | cons next rest => rfl
  have assigns' : first'.isSelfAssigning = false := by
    rw [← Expr.isSelfAssigning_bare, sameFirst, Expr.isSelfAssigning_bare, assigns]
  rw [if_neg (by simp [assigns'])]
  refine .last (chain_reads chained fuel after #[] _ isChained (by omega) ends) fun read isRead => ?_
  refine .pure ?_
  simp only [Stmt.bare, Ident.bare, isName, sameType, sameFirst, Expr.allBare_eq, isRead,
    List.nil_append]

theorem function_reads {name : Ident} {params : List (Binding .parsed)} {returns : TypeRef}
    {body : PBlock} (isBody : BlockReads spell body) {fuel : Nat} {after : List Word}
    (enough : 8 * (Stmt.words spell (.func name params returns body span ())).length ≤ fuel) :
    Reads (function fuel) (Stmt.words spell (.func name params returns body span ())) after
      (·.bare = Stmt.bare (.func name params returns body span ())) := by
  simp only [Stmt.words, List.length_append, List.length_cons, Word.parens_length,
    Word.braces_length] at enough
  obtain ⟨fuel, rfl⟩ : ∃ n, fuel = n + 1 := ⟨fuel - 1, by omega⟩
  simp only [Stmt.words, Word.parens, Word.enclosed, List.append_assoc, List.cons_append]
  refine .expect_bind rfl fun _ _ => .ident_bind fun name' isName => .expect_bind rfl fun _ _ => ?_
  refine .bind (bindings_read (by decide) params (by omega)) fun params' sameParams => ?_
  refine .expect_bind rfl fun _ _ => .expect_bind rfl fun _ _ => ?_
  refine .bind (type_reads returns fuel _ (by omega) (by simp)) fun returns' sameReturns => ?_
  refine .last (isBody fuel after (by omega)) fun body' sameBody => .pure ?_
  simp only [Stmt.bare, Ident.bare, isName, sameParams, sameReturns, sameBody]

theorem funcStmt_reads {name : Ident} {params : List (Binding .parsed)} {returns : TypeRef}
    {body : PBlock} (isBody : BlockReads spell body) :
    StmtReads spell (.func name params returns body span ()) := by
  intro fuel after enough _
  obtain ⟨fuel, rfl⟩ : ∃ n, fuel = n + 1 := ⟨fuel - 1, by omega⟩
  refine .peek_kind fun token (kind : token.kind = .funcKw) => ?_
  simp only [kind]
  exact function_reads isBody (Nat.le_of_lt_succ enough)

theorem recordStmt_reads {name : Ident} {fields : List (Binding .parsed)} :
    StmtReads spell (.record name fields span ()) := by
  intro fuel after enough _
  obtain ⟨fuel, rfl⟩ : ∃ n, fuel = n + 1 := ⟨fuel - 1, by omega⟩
  refine .peek_kind fun token (kind : token.kind = .typeKw) => ?_
  simp only [kind]
  exact record_reads name fields span (Nat.le_of_lt_succ enough)

theorem exprStmt_reads {value : PExpr} (isValue : ExprReads spell value) :
    StmtReads spell (.expr value) := by
  intro fuel after enough ends
  simp only [Stmt.words, Word.parens_length] at enough ⊢
  obtain ⟨fuel, rfl⟩ : ∃ n, fuel = n + 1 := ⟨fuel - 1, by omega⟩
  refine .peek_kind fun token (kind : token.kind = .leftParen) => ?_
  simp only [kind]
  refine .last (expr_parens isValue (by omega) ends.1) fun value' same => .pure ?_
  simp only [Stmt.bare, same]

def StmtsRead (spell : Float → String) (stmts : List PStmt) : Prop :=
  ∀ (fuel : Nat) (after : List Word) (done : Array PStmt),
    8 * (Stmt.allWords spell stmts).length + 4 ≤ fuel →
    Reads (stmtsUntilBrace fuel done) (Stmt.allWords spell stmts) (.of .rightBrace :: after)
      fun read => read.map Stmt.bare = (done.toList ++ stmts).map Stmt.bare

theorem stmts_read_nil : StmtsRead spell [] := by
  intro fuel after done enough
  obtain ⟨fuel, rfl⟩ : ∃ n, fuel = n + 1 := ⟨fuel - 1, by omega⟩
  exact .isAt_yes rfl (.pure (by simp))

theorem words_pos (spell : Float → String) (stmt : PStmt) : 0 < (stmt.words spell).length := by
  cases stmt <;> simp [Stmt.words]

theorem stmts_read_cons {first : PStmt} {rest : List PStmt} (isFirst : StmtReads spell first)
    (areRest : StmtsRead spell rest) : StmtsRead spell (first :: rest) := by
  intro fuel after done enough
  have := words_pos spell first
  simp only [Stmt.allWords, List.length_append] at enough ⊢
  obtain ⟨fuel, rfl⟩ : ∃ n, fuel = n + 1 := ⟨fuel - 1, by omega⟩
  have ends : StmtEnds (Stmt.allWords spell rest ++ .of .rightBrace :: after) := by
    cases rest with
    | nil => exact ⟨rfl, by simp [Stmt.allWords]⟩
    | cons next rest =>
      rw [Stmt.allWords, List.append_assoc]
      exact stmtEnds_words next _
  have start : Word.headKind (first.words spell ++ Stmt.allWords spell rest ++
      .of .rightBrace :: after) ≠ .rightBrace := by
    cases first <;> simp [Stmt.words]
  refine .isAt_no start (.bind (isFirst fuel _ (by omega) ends) fun first' same => ?_)
  refine (areRest fuel after (done.push first') (by omega)).mono fun read isRead => ?_
  simpa [same] using isRead

theorem block_reads_of {stmts : List PStmt} (areStmts : StmtsRead spell stmts) :
    BlockReads spell ⟨stmts, span, ()⟩ := by
  intro fuel after enough
  simp only [Block.inner] at enough ⊢
  obtain ⟨fuel, rfl⟩ : ∃ n, fuel = n + 1 := ⟨fuel - 1, by omega⟩
  refine .expect_bind rfl fun _ _ => .bind (areStmts fuel _ #[] (by omega)) fun stmts' same => ?_
  refine .expect_bind rfl fun _ _ => .pure ?_
  simp only [Block.bare, Stmt.allBare_eq, same, List.nil_append]

end Stmts

/-! ### Trees -/

section Trees

variable {spell : Float → String}

-- One case per constructor; the lemma of its form says what reading its parts has to give.
mutual

theorem expr_reads : ∀ e : PExpr, e.Writable (Number.SpeltBy spell) → ExprReads spell e
  | .number .., spelt => number_reads spelt
  | .string .., _ => string_reads
  | .bool .., _ => bool_reads
  | .named .., _ => named_reads
  | .binary _ lhs rhs _ _, ⟨left, right⟩ => binary_reads (expr_reads lhs left) (expr_reads rhs right)
  | .range first limit none _ _, ⟨isFirst, isLimit⟩ =>
    range_reads (expr_reads first isFirst) (expr_reads limit isLimit)
  | .range first limit (some step) _ _, ⟨isFirst, isLimit, isStep⟩ =>
    rangeStep_reads (expr_reads first isFirst) (expr_reads limit isLimit) (expr_reads step isStep)
  | .call _ args _ _ _, ⟨_, areArgs⟩ => call_reads (exprs_read args areArgs)
  | .construct _ args _ _ _, ⟨_, areArgs⟩ => construct_reads (exprs_read args areArgs)
  | .member base _ _ _ _, ⟨isBase, _⟩ => member_reads (expr_reads base isBase)
  | .ifElse cond yes no _ _, ⟨isCond, isYes, isNo⟩ =>
    ifElse_reads (expr_reads cond isCond) (block_reads yes isYes) (block_reads no isNo)
  | .ifOnly cond yes _ _, ⟨isCond, isYes⟩ =>
    ifOnly_reads (expr_reads cond isCond) (block_reads yes isYes)
  | .foreach _ _ source body _ _ _, ⟨_, _, isSource, isBody⟩ =>
    foreach_reads (expr_reads source isSource) (block_reads body isBody)
  | .block body _, isBody => blockExpr_reads (block_reads body isBody)

theorem exprs_read : ∀ exprs : List PExpr, Expr.AllWritable (Number.SpeltBy spell) exprs →
    ∀ e ∈ exprs, ExprReads spell e
  | [], _ => by simp
  | first :: rest, ⟨isFirst, areRest⟩ =>
    List.forall_mem_cons.mpr ⟨expr_reads first isFirst, exprs_read rest areRest⟩

theorem block_reads : ∀ body : PBlock, body.Writable (Number.SpeltBy spell) → BlockReads spell body
  | ⟨stmts, _, _⟩, areStmts => block_reads_of (stmts_read stmts areStmts)

theorem stmt_reads : ∀ stmt : PStmt, stmt.Writable (Number.SpeltBy spell) → StmtReads spell stmt
  | .letIn _ _ first chained _ _, ⟨_, _, isFirst, assigns, areChained⟩ =>
    let_reads (expr_reads first isFirst) assigns (exprs_read chained areChained)
  | .func _ _ _ body _ _, ⟨_, _, _, isBody⟩ => funcStmt_reads (block_reads body isBody)
  | .record .., _ => recordStmt_reads
  | .expr value, isValue => exprStmt_reads (expr_reads value isValue)

theorem stmts_read : ∀ stmts : List PStmt, Stmt.AllWritable (Number.SpeltBy spell) stmts →
    StmtsRead spell stmts
  | [], _ => stmts_read_nil
  | first :: rest, ⟨isFirst, areRest⟩ =>
    stmts_read_cons (stmt_reads first isFirst) (stmts_read rest areRest)

end

/-- The induction is on the declarations; `done` holds those before them. -/
theorem declarations_read : ∀ (stmts : List PStmt) (fuel : Nat) (done : Array PStmt),
    Stmt.AllWritable (Number.SpeltBy spell) stmts → (∀ stmt ∈ stmts, stmt.IsDeclaration) →
    8 * (Stmt.allWords spell stmts).length < fuel →
    Reads (declarations fuel done) (Stmt.allWords spell stmts) []
      fun read => read.map Stmt.bare = (done.toList ++ stmts).map Stmt.bare
  | [], fuel + 1, done, _, _, _ => by
    refine .peek_kind fun token (kind : token.kind = .eof) => ?_
    simp only [kind]
    exact .pure (by simp)
  | first :: rest, fuel + 1, done, ⟨isFirst, areRest⟩, declared, enough => by
    have pos := words_pos spell first
    have isDeclaration := declared first (by simp)
    simp only [Stmt.allWords, List.length_append] at enough ⊢
    have bound : 8 * (first.words spell).length ≤ fuel := by omega
    have later (first' : PStmt) (same : first'.bare = first.bare) :
        Reads (declarations fuel (done.push first')) (Stmt.allWords spell rest) []
          fun read => read.map Stmt.bare = (done.toList ++ first :: rest).map Stmt.bare := by
      have reads := declarations_read rest fuel (done.push first') areRest
        (fun stmt member => declared stmt (by simp [member])) (by omega)
      refine reads.mono fun read isRead => ?_
      simpa [same] using isRead
    cases first with
    | func _ _ _ body _ _ =>
      refine .peek_kind fun token (kind : token.kind = .funcKw) => ?_
      simp only [kind]
      exact .bind (function_reads (block_reads body isFirst.2.2.2) bound) later
    | record name fields span _ =>
      refine .peek_kind fun token (kind : token.kind = .typeKw) => ?_
      simp only [kind]
      exact .bind (record_reads name fields span bound) later
    | letIn | expr => exact absurd isDeclaration id

end Trees

end Reader

/-! ### Whole texts -/

theorem Cursor.faces_ofTokens {tokens : List Token} {words : List Word} (names : NameTable)
    (shows : Token.Shows tokens (words ++ [Word.final])) : (ofTokens tokens names).Faces words := by
  have seen := shows.1
  unfold ofTokens
  split
  · rename_i none
    rw [none] at seen
    simp at seen
  · rename_i token rest some
    rw [some] at seen
    exact seen

theorem parseWith_spaced {α : Type} {reader : Nat → Reader α} {words : List Word} {good : α → Prop}
    (stand : Word.AllStand words)
    (reads : ∀ fuel, 8 * words.length < fuel → (reader fuel).Reads words [] good)
    (names : NameTable) :
    ∃ a, (parseWith reader (Word.spaced words) names).1 = .ok a ∧ good a := by
  have shows := Token.scan_spaced stand
  have lengths := shows.length_le
  rw [List.length_append] at lengths
  have clean : (Token.scan (Word.spaced words)).find? (fun token => token.kind.isError) = none := by
    simpa using shows.2
  obtain ⟨a, cursor, ran, _, isGood⟩ :=
    reads (8 * (Token.scan (Word.spaced words)).length + 16) (by omega)
      (Cursor.ofTokens (Token.scan (Word.spaced words)) names.register)
      (by simpa using Cursor.faces_ofTokens names.register shows)
  refine ⟨a, ?_, isGood⟩
  simp only [parseWith, clean, ran]

theorem Module.parse_render {m : Module .parsed} {spell : Float → String}
    (writable : m.Writable (Number.SpeltBy spell)) (names : NameTable) :
    ∃ read, (parseModule (m.render spell) names).1 = .ok read ∧ read.bare = m.bare := by
  refine parseWith_spaced (Stmt.allStand_allWords m.stmts writable.1) (fun fuel enough => ?_) names
  have reads := Reader.declarations_read m.stmts fuel #[] writable.1 writable.2 enough
  refine reads.map fun stmts same => ?_
  simpa [Module.bare, Stmt.allBare_eq] using same

theorem Module.exists_spelling {m : Module .parsed}
    (writable : m.Writable fun value => ∃ literal, Number.Denotes literal value) :
    ∃ spell, m.Writable (Number.SpeltBy spell) := by
  refine ⟨fun value => Classical.epsilon (Number.Denotes · value), ?_, writable.2⟩
  exact Stmt.allWritable_mono (fun _ denoted => Classical.epsilon_spec denoted) m.stmts writable.1

/-- A module of functions and records that can be written can be spelt, and however it is spelt, its
text is read back as the module. So no other module has the same text. -/
theorem parseModule_render {m : Module .parsed}
    (writable : m.Writable fun value => ∃ literal, Number.Denotes literal value) :
    (∃ spell, m.Writable (Number.SpeltBy spell)) ∧
      ∀ spell, m.Writable (Number.SpeltBy spell) →
        (∀ names, ∃ read, (parseModule (m.render spell) names).1 = .ok read ∧
          read.bare = m.bare) ∧
        ∀ (other : Module .parsed) (spell' : Float → String),
          other.Writable (Number.SpeltBy spell') → other.render spell' = m.render spell →
            other.bare = m.bare := by
  refine ⟨m.exists_spelling writable, fun spell spelt => ⟨m.parse_render spelt, ?_⟩⟩
  intro other spell' otherSpelt sameText
  obtain ⟨read, ran, same⟩ := m.parse_render spelt .empty
  obtain ⟨read', ran', same'⟩ := other.parse_render otherSpelt .empty
  rw [sameText, ran] at ran'
  cases ran'
  exact same'.symm.trans same

def loopModule : Module .parsed :=
  let ident (text : String) : Ident := ⟨text, default⟩
  let num : TypeRef := ⟨ident "Num", [], default⟩
  let two : Expr .parsed := .number (Number.ofDecimal 2 0) default ()
  let text (value : String) : Expr .parsed := .string value default ()
  let named (name : String) : Expr .parsed := .named (ident name) () default ()
  let block (value : Expr .parsed) : Block .parsed := ⟨[.expr value], default, ()⟩
  let loop : Expr .parsed := .foreach (ident "i") num (.range two two none default ())
    (block (.binary .add (named "x") (named "i") default ())) () default ()
  let choice : Expr .parsed := .ifElse (.binary .eq (named "x") two default ()) (block (text "a"))
    (block (.binary .concat (text "b") (text "c") default ())) default ()
  ⟨[.record (ident "Nums") [⟨ident "all", ⟨ident "Seq", [num], default⟩, ()⟩] default (),
    .func (ident "Main") [] ⟨ident "Text", [], default⟩
      ⟨[.letIn (ident "x") num two [loop] default (), .expr choice], default, ()⟩ default ()]⟩

theorem denotes_two : Number.Denotes "2" (Number.ofDecimal 2 0) := ⟨by decide, rfl⟩

theorem loopModule_spelt : loopModule.Writable (Number.SpeltBy fun _ => "2") := by
  simp only [loopModule, Module.Writable, Stmt.AllWritable, Stmt.Writable, Stmt.IsDeclaration,
    Block.Writable, Expr.Writable, Expr.AllWritable, Expr.isSelfAssigning, Binding.Writable,
    TypeRef.Writable, TypeRef.AllWritable, Number.SpeltBy, denotes_two, List.mem_cons,
    List.not_mem_nil, forall_eq_or_imp, forall_eq, or_false, false_implies, implies_true, and_true,
    true_and]
  decide

theorem parseModule_render_loopModule :
    (loopModule.Writable fun value => ∃ literal, Number.Denotes literal value) ∧
      loopModule.render (fun _ => "2") =
        "type Nums \x7b all Seq < Num > \x7d func Main ( ) -> Text \x7b let x Num = ( 2 ) " ++
          "where ( foreach i Num in ( [ ( 2 ) to ( 2 ) ] ) do \x7b ( ( x ) + ( i ) ) \x7d ) " ++
          "( if ( ( x ) = = ( 2 ) ) then \x7b ( \"a\" ) \x7d " ++
          "else \x7b ( ( \"b\" ) . . ( \"c\" ) ) \x7d ) \x7d" ∧
      ∃ read, (parseModule (loopModule.render fun _ => "2") .empty).1 = .ok read ∧
        read.bare = loopModule.bare := by
  have writable : loopModule.Writable fun value => ∃ literal, Number.Denotes literal value :=
    ⟨Stmt.allWritable_mono (fun _ spelt => ⟨_, spelt⟩) _ loopModule_spelt.1, loopModule_spelt.2⟩
  refine ⟨writable, by decide +kernel, ?_⟩
  exact ((parseModule_render writable).2 _ loopModule_spelt).1 .empty

/-- A module of one function that gives a text. -/
def textModule (value : String) : Module .parsed :=
  ⟨[.func ⟨"Main", default⟩ [] ⟨⟨"Text", default⟩, [], default⟩
    ⟨[.expr (.string value default ())], default, ()⟩ default ()]⟩

theorem textModule_writable (number : Float → Prop) {value : String}
    (quotable : Text.isQuotable value = true) : (textModule value).Writable number := by
  simp only [textModule, Module.Writable, Stmt.AllWritable, Stmt.Writable, Stmt.IsDeclaration,
    Block.Writable, Expr.Writable, TypeRef.Writable, TypeRef.AllWritable, quotable, List.mem_cons,
    List.not_mem_nil, forall_eq, or_false, false_implies, implies_true, and_true, true_and]
  decide

theorem isQuotable_of_bare {m : Module .parsed} {number : Float → Prop} {value : String}
    (writable : m.Writable number) (same : m.bare = (textModule value).bare) :
    Text.isQuotable value = true := by
  obtain ⟨stmts⟩ := m
  have stmtsSame : stmts.map Stmt.bare = (textModule value).stmts.map Stmt.bare := by
    simpa only [Module.bare, Stmt.allBare_eq, Module.mk.injEq] using same
  obtain ⟨func, rfl, funcSame⟩ := List.map_eq_singleton_iff.mp stmtsSame
  cases func with
  | letIn | record | expr => cases funcSame
  | func name params returns body span sym =>
    obtain ⟨-, -, -, bodyWritable⟩ := writable.1.1
    obtain ⟨stmts, span, scope⟩ := body
    simp only [Stmt.bare, Stmt.func.injEq, Block.bare, Block.mk.injEq, Stmt.allBare_eq] at funcSame
    obtain ⟨stmt, rfl, stmtSame⟩ := List.map_eq_singleton_iff.mp funcSame.2.2.2.1.1
    cases stmt with
    | letIn | record | func => cases stmtSame
    | expr value =>
      cases value with
      | string =>
        cases stmtSame
        exact bodyWritable.1
      | range _ _ step => cases step <;> cases stmtSame
      | _ => cases stmtSame

/-- A text for which no span has room is not read back, although it holds no quote and no NUL. -/
theorem parseModule_cuts_longText :
    Text.isPlain longText = true ∧
      (∀ value, Text.isQuotable value = true → ∀ number, (textModule value).Writable number) ∧
      ∀ spell names, ¬∃ read, (parseModule ((textModule longText).render spell) names).1 = .ok read ∧
        read.bare = (textModule longText).bare := by
  refine ⟨longText_isPlain, fun _ quotable number => textModule_writable number quotable, ?_⟩
  rintro spell names ⟨read, ran, same⟩
  have quotable := isQuotable_of_bare (parseModule_writable ran) same
  rw [Text.isQuotable, Bool.and_eq_true, decide_eq_true_eq, longText_size] at quotable
  omega

end LetChain
