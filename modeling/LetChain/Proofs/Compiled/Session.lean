import LetChain.Compilation
import LetChain.Proofs.Syntax.Mirrored

/-! What a source gives does not depend on the names that the table held before, if it began with the
built-in names. -/

namespace LetChain

inductive Stage where
  | expr
  | module
  | bind
  | lower

inductive Answer where
  | expr (result : Except (Located ParseError) (Expr .parsed))
  | module (result : Except (Located ParseError) (Module .parsed))
  | bind (result : Except CompileError Resolved)
  | lower (result : Except (Halt CompileError) Compilation)

def Stage.run (stage : Stage) (source : String) (names : NameTable) : Answer × NameTable :=
  match stage with
  | .expr => (parseExpr source names).map Answer.expr id
  | .module => (parseModule source names).map Answer.module id
  | .bind => (resolveSource source names).map Answer.bind id
  | .lower => (compileWith source names).map Answer.lower id

/-! ### Growing tables -/

namespace NameTable

/-- All names and handles of the first table are in the second. -/
structure Extends (names names' : NameTable) : Prop where
  size : names.size ≤ names'.size
  name? : ∀ handle name, names.name? handle = some name → names'.name? handle = some name
  handle? : ∀ name handle, names.handle? name = some handle → names'.handle? name = some handle

theorem Extends.refl (names : NameTable) : Extends names names :=
  ⟨Nat.le_refl _, fun _ _ found => found, fun _ _ found => found⟩

theorem Extends.trans {a b c : NameTable} (first : Extends a b) (second : Extends b c) :
    Extends a c where
  size := Nat.le_trans first.size second.size
  name? handle name found := second.name? handle name (first.name? handle name found)
  handle? name handle found := second.handle? name handle (first.handle? name handle found)

theorem extends_insert (names : NameTable) (name : String) : Extends names (names.insert name) where
  size := by
    rw [insert]
    split
    · exact Nat.le_refl _
    · simp [size]
  name? _ _ found := name?_insert name found
  handle? known handle found := by
    rw [insert]
    split
    · exact found
    · rename_i absent
      have found : names.handles[known]? = some handle := found
      have other : name ≠ known := by
        rintro rfl
        simp [Std.HashMap.contains_eq_isSome_getElem?, found] at absent
      change (names.handles.insert name _)[known]? = some handle
      rw [Std.HashMap.getElem?_insert]
      simpa [other] using found

theorem extends_insertAll (names : NameTable) (more : List String) :
    Extends names (names.insertAll more) := by
  induction more generalizing names with
  | nil => exact .refl names
  | cons name rest ih => exact (extends_insert names name).trans (ih (names.insert name))

theorem extends_register (names : NameTable) : Extends names names.register := by
  rw [register]
  split
  · exact extends_insertAll names _
  · exact .refl names

def Begun (names : NameTable) : Prop :=
  ∃ learned, names.register = empty.register.insertAll learned

theorem begun_empty : Begun empty := ⟨[], rfl⟩

theorem Begun.insertAll {names : NameTable} (begun : Begun names) (more : List String) :
    Begun (names.register.insertAll more) := by
  obtain ⟨learned, isBegun⟩ := begun
  refine ⟨learned ++ more, ?_⟩
  rw [isBegun, insertAll_append]
  have main := name?_insertAll (learned ++ more) mainName?_register
  rw [register, if_neg]
  intro isEmpty
  rw [Array.isEmpty_iff] at isEmpty
  simp [NameTable.name?, isEmpty] at main

theorem names_register : empty.register.names = builtinNames.toArray := by
  simp [register, empty, NameTable.insertAll, builtinNames, insert]

theorem name?_builtin (learned : List String) {index : Nat} (low : index < builtinNames.length) :
    (empty.register.insertAll learned).name? (index + 1) = builtinNames[index]? := by
  have isName := List.getElem?_eq_getElem low
  rw [isName]
  refine name?_insertAll learned ?_
  rw [NameTable.name?, names_register, List.getElem?_toArray]
  exact isName

end NameTable

/-! ### One source -/

namespace NameTable.Begun

variable {names : NameTable} (begun : names.Begun)

include begun

theorem name?_insertAll (learned : List String) {index : Nat}
    (low : index < builtinNames.length) :
    (names.register.insertAll learned).name? (index + 1) = builtinNames[index]? := by
  obtain ⟨before, isBegun⟩ := begun
  rw [isBegun, insertAll_append]
  exact name?_builtin (before ++ learned) low

theorem builtinScopes (learned : List String) :
    Resolve.builtinScopes (names.register.insertAll learned) =
      Resolve.builtinScopes (empty.register.insertAll learned) := by
  have same (index : Nat) (low : index < builtinNames.length) :
      (names.register.insertAll learned).name? (index + 1) =
        (empty.register.insertAll learned).name? (index + 1) := by
    rw [begun.name?_insertAll learned low, name?_builtin learned low]
  simp only [Resolve.builtinScopes, numberName?, stringName?, booleanName?, seqName?]
  rw [same 0 (by decide), same 1 (by decide), same 2 (by decide), same 3 (by decide)]

theorem resolveSource (source : String) :
    (resolveSource source names).1 = (resolveSource source .empty).1 ∧
      ∃ learned, (LetChain.resolveSource source names).2 = names.register.insertAll learned ∧
        (LetChain.resolveSource source .empty).2 = empty.register.insertAll learned := by
  obtain ⟨result, learned, after, after', -⟩ := parseModule_names source names .empty
  rw [LetChain.resolveSource, LetChain.resolveSource]
  generalize parseModule source names = here at result after ⊢
  generalize parseModule source .empty = alone at result after' ⊢
  obtain ⟨outcome, table⟩ := here
  obtain ⟨outcome', table'⟩ := alone
  obtain rfl : outcome' = outcome := result
  obtain rfl : table = names.register.insertAll learned := after
  obtain rfl : table' = empty.register.insertAll learned := after'
  cases outcome' with
  | error error => exact ⟨rfl, learned, rfl, rfl⟩
  | ok m =>
    refine ⟨?_, learned, rfl, rfl⟩
    dsimp only
    rw [Module.resolve, Module.resolve, begun.builtinScopes]

theorem compileWith (source : String) :
    (compileWith source names).1 = (compileWith source .empty).1 ∧
      ∃ learned, (LetChain.compileWith source names).2 = names.register.insertAll learned := by
  obtain ⟨result, learned, after, after'⟩ := begun.resolveSource source
  rw [LetChain.compileWith, LetChain.compileWith]
  generalize LetChain.resolveSource source names = here at result after ⊢
  generalize LetChain.resolveSource source .empty = alone at result after' ⊢
  obtain ⟨outcome, table⟩ := here
  obtain ⟨outcome', table'⟩ := alone
  obtain rfl : outcome = outcome' := result
  obtain rfl : table = names.register.insertAll learned := after
  obtain rfl : table' = empty.register.insertAll learned := after'
  cases outcome with
  | error error => exact ⟨rfl, learned, rfl⟩
  | ok found =>
    have main : (names.register.insertAll learned).mainName? =
        (empty.register.insertAll learned).mainName? := by
      rw [mainName?, mainName?, begun.name?_insertAll learned (by decide),
        name?_builtin learned (by decide)]
    dsimp only
    rw [main]
    cases found.module.generate found.symbols _ <;> exact ⟨rfl, learned, rfl⟩

end NameTable.Begun

theorem Stage.run_begun {names : NameTable} (begun : names.Begun) (stage : Stage)
    (source : String) :
    (stage.run source names).1 = (stage.run source .empty).1 ∧
      ∃ learned, (stage.run source names).2 = names.register.insertAll learned := by
  cases stage with
  | expr =>
    obtain ⟨result, learned, after, -⟩ := parseExpr_names source names .empty
    exact ⟨congrArg Answer.expr result.symm, learned, after⟩
  | module =>
    obtain ⟨result, learned, after, -⟩ := parseModule_names source names .empty
    exact ⟨congrArg Answer.module result.symm, learned, after⟩
  | bind =>
    obtain ⟨result, learned, after, -⟩ := begun.resolveSource source
    exact ⟨congrArg Answer.bind result, learned, after⟩
  | lower =>
    obtain ⟨result, after⟩ := begun.compileWith source
    exact ⟨congrArg Answer.lower result, after⟩

end LetChain
