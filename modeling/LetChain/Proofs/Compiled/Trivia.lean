import LetChain.Compilation
import LetChain.Proofs.Lowering.Relocated
import LetChain.Proofs.Syntax.Mirrored

/-! Blanks and comments do not matter: what a text compiles to depends only on its other tokens. -/

namespace LetChain

/-- Two texts without lexical errors that have the same tokens, whatever lies between them. -/
structure SameTokens (source source' : String) : Prop where
  clean : ∀ token ∈ Token.scan source, token.kind.isError = false
  clean' : ∀ token ∈ Token.scan source', token.kind.isError = false
  tokens : List.Forall₂ Token.Same (Token.solid (Token.scan source))
    (Token.solid (Token.scan source'))

theorem SameTokens.of_eq {source source' : String}
    (clean : (Token.scan source).all (!·.kind.isError) = true)
    (clean' : (Token.scan source').all (!·.kind.isError) = true)
    (tokens : (Token.solid (Token.scan source)).map (fun token => (token.kind, token.text)) =
      (Token.solid (Token.scan source')).map fun token => (token.kind, token.text)) :
    SameTokens source source' where
  clean := by simpa using clean
  clean' := by simpa using clean'
  tokens := by
    rw [← List.forall₂_eq_eq_eq, List.forall₂_map_left_iff, List.forall₂_map_right_iff] at tokens
    exact tokens.imp fun _ _ same =>
      ⟨congrArg Prod.fst same.symm, fun _ => congrArg Prod.snd same.symm⟩

namespace Token

def unplaced (token : Token) : Token := { token with span := default }

theorem Same.refl (token : Token) : token.Same token := ⟨rfl, fun _ => rfl⟩

theorem Same.unplaced {token token' : Token} (same : token.Same token') :
    token'.Mirrors .forget token.unplaced :=
  Same.mirrors ⟨same.kind.symm, fun content => (same.text (same.kind ▸ content)).symm⟩ rfl rfl

end Token

section Parsing

variable {α : Type} {carry : Wording → α → α} {reader : Nat → Reader α}

theorem Reader.Uniform.parseWith_forget (uniform : Uniform carry reader) {source : String}
    (clean : ∀ token ∈ Token.scan source, token.kind.isError = false) {first : Token}
    {rest : List Token}
    (same : List.Forall₂ Token.Same (first :: rest) (Token.solid (Token.scan source)))
    (names : NameTable) {fuel : Nat} (low : 8 * rest.length + 3 ≤ fuel) :
    ((parseWith reader source names).1.map (carry (.ofPlace Span.forget))).mapError
        (Located.relocate Span.forget) =
      (kept (reader fuel ⟨first.unplaced, rest.map Token.unplaced, names.register⟩)).1 ∧
    (parseWith reader source names).2 =
      (kept (reader fuel ⟨first.unplaced, rest.map Token.unplaced, names.register⟩)).2 := by
  obtain ⟨current, ahead, split, start, ended⟩ :=
    Cursor.ofTokens_eq (Token.scan_cuts source).ended names.register
  rw [split] at same
  obtain ⟨here, later⟩ := List.forall₂_cons.mp same
  have mirrors : (Cursor.ofTokens (Token.scan source) names.register).Mirrors .forget
      ⟨first.unplaced, rest.map Token.unplaced, names.register⟩ := by
    rw [start]
    refine ⟨here.unplaced, ?_⟩
    rw [List.forall₂_map_right_iff]
    exact later.flip.imp fun _ _ same => same.unplaced
  have enough : 8 * (Cursor.ofTokens (Token.scan source) names.register).left + 3 ≤ fuel := by
    rw [start, Cursor.left, ← later.length_eq]
    exact low
  obtain ⟨result, learned, names₁, names₂, -⟩ := uniform.agree mirrors ended
    (Cursor.ofTokens_left _ _) enough
  rw [parseWith_eq_kept clean]
  refine ⟨result.symm, ?_⟩
  rw [names₁, names₂, Cursor.ofTokens_names]
  exact congrArg _ (List.map_id learned).symm

theorem Reader.Uniform.parseWith_same (uniform : Uniform carry reader) {source source' : String}
    (same : SameTokens source source') (names : NameTable) :
    ((parseWith reader source' names).1.map (carry (.ofPlace Span.forget))).mapError
        (Located.relocate Span.forget) =
      ((parseWith reader source names).1.map (carry (.ofPlace Span.forget))).mapError
        (Located.relocate Span.forget) ∧
    (parseWith reader source' names).2 = (parseWith reader source names).2 := by
  have tokens := same.tokens
  obtain ⟨first, rest, split, -⟩ := Cursor.ofTokens_eq (Token.scan_cuts source).ended names
  have self : List.Forall₂ Token.Same (first :: rest) (Token.solid (Token.scan source)) := by
    rw [split]
    exact List.forall₂_same.mpr fun token _ => .refl token
  rw [split] at tokens
  obtain ⟨result, learned⟩ := uniform.parseWith_forget same.clean self names (Nat.le_refl _)
  obtain ⟨result', learned'⟩ := uniform.parseWith_forget same.clean' tokens names (Nat.le_refl _)
  exact ⟨result'.trans result.symm, learned'.trans learned.symm⟩

end Parsing

/-! ### Compiling -/

theorem resolveSource_forget (source : String) (names : NameTable) :
    (((resolveSource source names).1.map (Resolved.relocate Span.forget)).mapError
      (CompileError.relocate Span.forget)) =
      match ((parseModule source names).1.map (Module.relocate Span.forget)).mapError
        (Located.relocate Span.forget) with
      | .error error => .error (.parse error)
      | .ok m => m.resolve (parseModule source names).2 := by
  rw [resolveSource]
  rcases parseModule source names with ⟨error | m, names⟩
  · rfl
  · exact (m.resolve_relocate Span.forget names).symm

theorem resolveSource_names (source : String) (names : NameTable) :
    (resolveSource source names).2 = (parseModule source names).2 := by
  rw [resolveSource]
  rcases parseModule source names with ⟨error | m, names⟩ <;> rfl

theorem compileWith_forget (source : String) (names : NameTable) :
    ((compileWith source names).1.map Compilation.program).mapError
        (Halt.map (CompileError.relocate Span.forget)) =
      match ((resolveSource source names).1.map (Resolved.relocate Span.forget)).mapError
        (CompileError.relocate Span.forget) with
      | .error error => .error (.error error)
      | .ok resolved => (resolved.module.generate resolved.symbols
          (resolveSource source names).2.mainName?).mapError (Halt.map CompileError.lower) := by
  rw [compileWith]
  rcases resolveSource source names with ⟨error | resolved, names⟩
  · rfl
  · change Except.mapError _ (Except.map _ _) = Except.mapError _
      ((resolved.module.relocate Span.forget).generate (resolved.symbols.relocate Span.forget) _)
    rw [Module.generate_relocate]
    dsimp only
    cases resolved.module.generate resolved.symbols names.mainName? with
    | ok program => rfl
    | error halt => cases halt <;> rfl

/-- What lies between the tokens of a text does not matter. The trees and errors of a parse and the
errors of a compilation differ only in their places; names and programs do not differ at all. -/
theorem compile_ignores_trivia {source source' : String} (same : SameTokens source source')
    (names : NameTable) :
    (((parseModule source' names).1.map (Module.relocate Span.forget)).mapError
        (Located.relocate Span.forget) =
      ((parseModule source names).1.map (Module.relocate Span.forget)).mapError
        (Located.relocate Span.forget) ∧
      (parseModule source' names).2 = (parseModule source names).2) ∧
    (((parseExpr source' names).1.map (Expr.relocate Span.forget)).mapError
        (Located.relocate Span.forget) =
      ((parseExpr source names).1.map (Expr.relocate Span.forget)).mapError
        (Located.relocate Span.forget) ∧
      (parseExpr source' names).2 = (parseExpr source names).2) ∧
    ((compile source').map Compilation.program).mapError
        (Halt.map (CompileError.relocate Span.forget)) =
      ((compile source).map Compilation.program).mapError
        (Halt.map (CompileError.relocate Span.forget)) := by
  refine ⟨Reader.Uniform.module.parseWith_same same names,
    Reader.Uniform.expression.parseWith_same same names, ?_⟩
  obtain ⟨result, learned⟩ := Reader.Uniform.module.parseWith_same same .empty
  rw [compile, compile, compileWith_forget, compileWith_forget, resolveSource_forget,
    resolveSource_forget, resolveSource_names, resolveSource_names]
  rw [← parseModule, ← parseModule] at result learned
  change ((parseModule source' .empty).1.map (Module.relocate _)).mapError _ =
    ((parseModule source .empty).1.map (Module.relocate _)).mapError _ at result
  rw [result, learned]

/-- Written with as little trivia as there can be. -/
def denseText : String :=
  "type P\x7bx String\x7dfunc Main()->Boolean\x7bP\x7b\"a\"\x7d.x..\"b\"!=\"c\"\x7d"

/-- The same with trivia around the member access and within the operators. -/
def looseText : String :=
  "type P\x7bx String\x7dfunc Main()->Boolean\x7bP\x7b\"a\"\x7d // \n . x. //.\n.\"b\"! =\"c\"\x7d"

theorem compile_ignores_trivia_looseText : SameTokens denseText looseText ∧
    ((parseModule looseText .empty).1.map (Module.relocate Span.forget)).mapError
        (Located.relocate Span.forget) =
      ((parseModule denseText .empty).1.map (Module.relocate Span.forget)).mapError
        (Located.relocate Span.forget) ∧
    ((compile looseText).map Compilation.program).mapError
        (Halt.map (CompileError.relocate Span.forget)) =
      ((compile denseText).map Compilation.program).mapError
        (Halt.map (CompileError.relocate Span.forget)) := by
  have dense : denseText.toList = _ := String.toList_ofList
  have loose : looseText.toList = _ := String.toList_ofList
  have same : SameTokens denseText looseText := by
    apply SameTokens.of_eq <;> simp only [Token.scan, dense, loose] <;> decide +kernel
  obtain ⟨⟨trees, -⟩, -, programs⟩ := compile_ignores_trivia same .empty
  exact ⟨same, trees, programs⟩

end LetChain
