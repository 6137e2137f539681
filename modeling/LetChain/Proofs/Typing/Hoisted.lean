import Mathlib.Data.List.Basic
import LetChain.Proofs.Typing.Declarations
import LetChain.Proofs.Typing.Entered

/-! Checking only adds symbols. Those that it hoists have the kinds that their declarations say. -/

namespace LetChain

open Stateful (bind_eq_ok lift_eq_ok)

theorem Symbols.get_of_getElem? {s : Symbols} {id : SymbolId} {symbol : Symbol}
    (found : s[id]? = some symbol) : id < s.size ∧ s.get id = symbol := by
  refine ⟨(Array.getElem?_eq_some_iff.mp found).1, ?_⟩
  rw [get, Array.getD_eq_getD_getElem?, found, Option.getD_some]

namespace Lexical

open Resolve (PExpr PStmt TExpr TStmt Expected)

section Members

variable {s : Symbols} {kind : Nat → SymbolKind} {owner : Option SymbolId}
  {declared : List (Binding .parsed)} {types : List Ty} {members : List SymbolId}

theorem memberSymbols_getElem? {start index : Nat} {symbol : Symbol}
    (found : (memberSymbols kind owner start declared types)[index]? = some symbol) :
    ∃ member ∈ declared, ∃ ty ∈ types,
      symbol = ⟨member.name.text, ty, kind (start + index), member.name.span, owner⟩ := by
  induction declared generalizing start index types with
  | nil => simp [memberSymbols] at found
  | cons member rest ih =>
    cases types with
    | nil => simp [memberSymbols] at found
    | cons ty types =>
      cases index with
      | zero =>
        cases found
        exact ⟨member, List.mem_cons_self, ty, List.mem_cons_self, rfl⟩
      | succ index =>
        obtain ⟨other, listed, otherTy, typed, rfl⟩ := ih found
        rw [show start + 1 + index = start + (index + 1) by omega]
        exact ⟨other, List.mem_cons_of_mem _ listed, otherTy, List.mem_cons_of_mem _ typed, rfl⟩

theorem member_known (known : members.map (s[·]?) = (memberSymbols kind owner 0 declared types).map some)
    {index : Nat} {id : SymbolId} (found : members[index]? = some id) :
    id < s.size ∧ ∃ member ∈ declared, ∃ ty ∈ types,
      s.get id = ⟨member.name.text, ty, kind index, member.name.span, owner⟩ := by
  have here := congrArg (·[index]?) known
  simp only [List.getElem?_map, found, Option.map_some] at here
  obtain ⟨symbol, isSymbol, same⟩ := Option.map_eq_some_iff.mp here.symm
  obtain ⟨bound, get⟩ := Symbols.get_of_getElem? same.symm
  obtain ⟨member, listed, ty, typed, isMember⟩ := memberSymbols_getElem? isSymbol
  rw [get, isMember, Nat.zero_add]
  exact ⟨bound, member, listed, ty, typed, rfl⟩

theorem member_names (known : members.map (s[·]?) = (memberSymbols kind owner 0 declared types).map some)
    (length : types.length = declared.length) :
    members.map (fun id => (s.get id).name) = declared.map (·.name.text) := by
  have names : ∀ {start : Nat}, (memberSymbols kind owner start declared types).map (·.name) =
      declared.map (·.name.text) := by
    clear known
    induction declared generalizing types with
    | nil => simp [memberSymbols]
    | cons member rest ih =>
      cases types with
      | nil => simp at length
      | cons ty types => simp [memberSymbols, ih (by simpa using length)]
  calc members.map (fun id => (s.get id).name)
      = (members.map (s[·]?)).map fun symbol? => (symbol?.getD default).name := by
        simp [Symbols.get, Function.comp_def]
    _ = declared.map (·.name.text) := by simp [known, names, Function.comp_def]

end Members

/-! ### Statements that were hoisted -/

/-- A function or record statement has its symbol, with the members that it declares. -/
def HasSymbol (s : Symbols) (stmt : PStmt) (id? : Option SymbolId) : Prop :=
  ∃ env, Owns env s stmt id?

namespace HasSymbol

variable {s s' : Symbols} {stmt : PStmt} {id? : Option SymbolId} {id : SymbolId} {name : Ident}
  {declared : List (Binding .parsed)} {span : Span} {sym : Unit}

theorem grown (has : HasSymbol s stmt id?) (extended : Extends s.size s s') : HasSymbol s' stmt id? := by
  obtain ⟨env, owns⟩ := has
  refine ⟨env, fun declares => ?_⟩
  obtain ⟨id, isId, entered⟩ := owns declares
  exact ⟨id, isId, entered.extend extended⟩

theorem given (has : HasSymbol s stmt id?) : HasSymbol s stmt (some (id?.getD 0)) := by
  obtain ⟨env, owns⟩ := has
  refine ⟨env, fun declares => ?_⟩
  obtain ⟨id, rfl, entered⟩ := owns declares
  exact ⟨id, rfl, entered⟩

theorem func {returns : TypeRef} {body : Block .parsed}
    (has : HasSymbol s (.func name declared returns body span sym) (some id)) :
    id < s.size ∧ ∃ ids ty, s.get id = ⟨name.text, .function, .function ids ty 0, span, none⟩ ∧
      (∀ param ∈ ids, param < s.size) ∧
      ids.map (fun param => (s.get param).name) = declared.map (·.name.text) := by
  obtain ⟨env, owns⟩ := has
  obtain ⟨_, found, entered⟩ := owns trivial
  cases found
  obtain ⟨heading, typed, fitting, own, known⟩ := entered
  cases heading
  obtain ⟨bound, get⟩ := Symbols.get_of_getElem? own
  refine ⟨bound, _, _, get, fun param listed => ?_, member_names known (by simpa using typesOf_length typed)⟩
  obtain ⟨index, place⟩ := List.getElem?_of_mem listed
  exact (member_known known place).1

theorem record (has : HasSymbol s (.record name declared span sym) (some id)) :
    id < s.size ∧ ∃ ids, s.get id = ⟨name.text, .record id name.text, .record ids, span, none⟩ ∧
      (∀ field ∈ ids, field < s.size) ∧
      ids.map (fun field => (s.get field).name) = declared.map (·.name.text) := by
  obtain ⟨env, owns⟩ := has
  obtain ⟨_, found, entered⟩ := owns trivial
  cases found
  obtain ⟨heading, typed, fitting, own, known⟩ := entered
  cases heading
  obtain ⟨bound, get⟩ := Symbols.get_of_getElem? own
  refine ⟨bound, _, get, fun field listed => ?_, member_names known (by simpa using typesOf_length typed)⟩
  obtain ⟨index, place⟩ := List.getElem?_of_mem listed
  exact (member_known known place).1

end HasSymbol

theorem mem_recordEntries {pairs : List (PStmt × Option SymbolId)} {entry : String × SymbolId}
    (listed : entry ∈ pairs.filterMap recordHere?) : ∃ name declared span sym,
      (.record name declared span sym, some entry.2) ∈ pairs ∧ entry.1 = name.text := by
  obtain ⟨⟨stmt, id?⟩, member, isEntry⟩ := List.mem_filterMap.mp listed
  cases stmt <;> cases id? <;> cases isEntry
  exact ⟨_, _, _, _, member, rfl⟩

theorem mem_functionEntries {pairs : List (PStmt × Option SymbolId)} {entry : String × SymbolId}
    (listed : entry ∈ pairs.filterMap functionEntry?) : ∃ name declared returns body span sym,
      (.func name declared returns body span sym, some entry.2) ∈ pairs ∧ entry.1 = name.text := by
  obtain ⟨⟨stmt, id?⟩, member, isEntry⟩ := List.mem_filterMap.mp listed
  cases stmt <;> cases id? <;> cases isEntry
  exact ⟨_, _, _, _, _, _, member, rfl⟩

theorem ownSymbols_eq {s : Symbols} {id : SymbolId} {stmt : PStmt} (declares : stmt.IsDeclaration) :
    ownSymbols s id stmt = id :: s.members id := by
  cases stmt with
  | func | record => rfl
  | letIn | expr => exact declares.elim

namespace HoistedAll

variable {env env' : Env} {s s' : Symbols} {stmts : List PStmt} {ids : List (Option SymbolId)}

theorem has (hoisted : HoistedAll env env' s s' stmts ids) {pair : PStmt × Option SymbolId}
    (listed : pair ∈ stmts.zip ids) : HasSymbol s' pair.1 pair.2 :=
  ⟨env', hoisted.each pair listed⟩

theorem above (hoisted : HoistedAll env env' s s' stmts ids) {pair : PStmt × Option SymbolId}
    (listed : pair ∈ stmts.zip ids) (declares : pair.1.IsDeclaration) : s.size ≤ pair.2.getD 0 := by
  refine (hoisted.fresh.mem (List.mem_flatMap.mpr ⟨pair, listed, ?_⟩)).1
  rw [ownSymbols_eq declares]
  exact List.mem_cons_self

theorem functionNames (hoisted : HoistedAll env env' s s' stmts ids) :
    ((stmts.zip ids).filterMap functionEntry?).map Prod.fst = stmts.filterMap Stmt.functionName? := by
  have stmtsEq : (stmts.zip ids).map Prod.fst = stmts :=
    List.map_fst_zip (Nat.le_of_eq hoisted.length.symm)
  conv => rhs; rw [← stmtsEq]
  rw [List.map_filterMap, List.filterMap_map]
  refine List.filterMap_congr fun pair listed => ?_
  obtain ⟨stmt, id?⟩ := pair
  cases stmt with
  | func =>
    obtain ⟨id, rfl, -⟩ := hoisted.each _ listed trivial
    rfl
  | _ => rfl

theorem entered (hoisted : HoistedAll env env' s s' stmts ids) {id : SymbolId} (above : s.size ≤ id)
    (bound : id < s'.size) : ∃ stmt own, Entered env' s' stmt own ∧ id ∈ own :: s'.members own := by
  have listed := hoisted.fresh.mem_iff.mpr
    (List.mem_range'_1.mpr ⟨above, Nat.lt_of_lt_of_le bound (by omega)⟩)
  obtain ⟨⟨stmt, id?⟩, paired, isOwn⟩ := List.mem_flatMap.mp listed
  cases stmt with
  | func | record =>
    obtain ⟨own, rfl, entered⟩ := hoisted.each _ paired trivial
    exact ⟨_, own, entered, isOwn⟩
  | letIn | expr => cases isOwn

end HoistedAll

theorem Entered.kinded {env : Env} {s : Symbols} {stmt : PStmt} {own id : SymbolId}
    (entered : Entered env s stmt own) (listed : id ∈ own :: s.members own) : Kinded s id := by
  obtain ⟨heading, typed, fitting, found, known⟩ := entered
  obtain ⟨-, get⟩ := Symbols.get_of_getElem? found
  cases heading with
  | record name declared span sym =>
    rcases List.mem_cons.mp listed with rfl | isField
    · refine ⟨by simp [get], by simp [get], ?_⟩
      rintro fields kind index field place
      rw [get] at kind
      cases kind
      obtain ⟨bound, _, -, _, -, isField⟩ := member_known known place
      exact ⟨bound, by rw [isField]⟩
    · rw [Symbols.members, get] at isField
      obtain ⟨index, place⟩ := List.getElem?_of_mem isField
      obtain ⟨-, _, -, _, -, isField⟩ := member_known known place
      exact .of_variable (by simp [isField, SymbolKind.role])
  | func name declared body span sym returning =>
    rcases List.mem_cons.mp listed with rfl | isParam
    · refine ⟨?_, by simp [get], by simp [get]⟩
      rintro params returns scope kind index param place
      rw [get] at kind
      cases kind
      obtain ⟨bound, _, -, _, -, isParam⟩ := member_known known place
      exact ⟨bound, by rw [isParam], by rw [isParam]⟩
    · rw [Symbols.members, get] at isParam
      obtain ⟨index, place⟩ := List.getElem?_of_mem isParam
      obtain ⟨-, _, -, _, -, isParam⟩ := member_known known place
      exact .of_variable (by simp [isParam, SymbolKind.role])

theorem Grows.hoist (env : Env) (stmts : List PStmt) : Grows (hoist env stmts) := by
  rintro s ⟨env', ids⟩ s' ran
  have hoisted := hoist_spec ran
  refine ⟨hoisted.ext, fun kinds => kinds.extend hoisted.ext fun id above => ?_⟩
  by_cases bound : id < s'.size
  · obtain ⟨stmt, own, entered, listed⟩ := hoisted.entered above bound
    exact entered.kinded listed
  · refine .of_variable ?_
    simp [Symbols.get, Array.getElem?_eq_none (Nat.le_of_not_lt bound), default, SymbolKind.role]

namespace Grows

mutual

theorem expr : ∀ (e : PExpr) (env : Env), Grows (expr env e)
  | .number .., _ => Grows.pure _
  | .string .., _ => Grows.pure _
  | .bool .., _ => Grows.pure _
  | .named .., _ => (value _ _).bind fun _ => get.bind fun _ => Grows.pure _
  | .binary op lhs rhs span _, env => by
    rw [Lexical.expr]
    refine (expr lhs env).bind fun lhs => (expr rhs env).bind fun rhs => ?_
    split
    · exact Grows.pure _
    · exact fail _
  | .range first limit step span _, env => by
    rw [Lexical.expr]
    refine (expr first env).bind fun first => (require _ _).bind fun _ => ?_
    refine (expr limit env).bind fun limit => (require _ _).bind fun _ => ?_
    cases step with
    | none => exact Grows.pure _
    | some step =>
      exact (expr step env).bind fun step => (require _ _).bind fun _ => Grows.pure _
  | .call name args _ span _, env => by
    rw [Lexical.expr]
    refine (role _ _ _).bind fun id => get.bind fun symbols => ?_
    split
    · refine (require _ _).bind fun _ => ?_
      exact (exprs args env _).bind fun args => Grows.pure _
    · exact fail _
  | .construct name args _ span _, env => by
    rw [Lexical.expr]
    refine (role _ _ _).bind fun id => get.bind fun symbols => ?_
    refine (require _ _).bind fun _ => (exprs args env _).bind fun args => ?_
    exact get.bind fun _ => Grows.pure _
  | .member base field _ span _, env => by
    rw [Lexical.expr]
    refine (expr base env).bind fun base => ?_
    split
    · refine get.bind fun symbols => ?_
      split
      · exact Grows.pure _
      · exact fail _
    · exact fail _
  | .ifElse cond yes no span _, env => by
    rw [Lexical.expr]
    refine (expr cond env).bind fun cond => (require _ _).bind fun _ => ?_
    refine (block yes env).bind fun yes => (blockValue _).bind fun yesType => ?_
    refine (block no env).bind fun no => (blockValue _).bind fun noType => ?_
    exact (require _ _).bind fun _ => Grows.pure _
  | .ifOnly .., _ => fail _
  | .foreach .., _ => fail _
  | .block body _, env => by
    rw [Lexical.expr]
    exact (block body env).bind fun body => (blockValue _).bind fun _ => Grows.pure _

theorem exprs : ∀ (args : List PExpr) (env : Env) (expected : List Expected),
    Grows (exprs env args expected)
  | [], _, _ => Grows.pure _
  | _ :: _, _, [] => Grows.pure _
  | arg :: rest, env, (ty, mismatch) :: expected => by
    rw [Lexical.exprs]
    refine (expr arg env).bind fun arg => (require _ _).bind fun _ => ?_
    exact (exprs rest env expected).bind fun args => Grows.pure _

theorem chain : ∀ (bodies : List PExpr) (env : Env) (name : Ident) (declared : Ty),
    Grows (chain env name declared bodies)
  | [], _, _, _ => Grows.pure _
  | body :: rest, env, name, declared => by
    have checked := expr body env
    have followed (body : TExpr) : Grows (do
        isLetBody name declared body
        let bodies ← Lexical.chain env name declared rest
        return body :: bodies) :=
      (require _ _).bind fun _ => (chain rest env name declared).bind fun _ => Grows.pure _
    have plain : Grows (do
        let body ← Lexical.expr env body
        isLetBody name declared body
        let bodies ← Lexical.chain env name declared rest
        return body :: bodies) :=
      checked.bind fun body => followed body
    cases body with
    | ifOnly cond yes span ty =>
      rw [Lexical.chain]
      refine (expr cond env).bind fun cond => (require _ _).bind fun _ => ?_
      exact (block yes env).bind fun yes => (blockValue _).bind fun ty => followed _
    | «foreach» element elementType source body sym span ty =>
      rw [Lexical.chain]
      refine (lift _).bind fun elementTy => (expr source env).bind fun source => ?_
      refine (isSource _ _ _).bind fun _ => (addLocal _ _ _).bind fun inside => ?_
      exact (block body inside.1).bind fun body => (blockValue _).bind fun ty => followed _
    | _ => exact plain

theorem block : ∀ (body : Block .parsed) (env : Env), Grows (block env body)
  | ⟨stmts, span, _⟩, env => by
    rw [Lexical.block]
    exact (hoist _ _).bind fun p => (checkStmts stmts p.1 p.2).bind fun stmts => Grows.pure _

theorem checkStmts : ∀ (stmts : List PStmt) (env : Env) (ids : List (Option SymbolId)),
    Grows (checkStmts env stmts ids)
  | [], _, _ => Grows.pure _
  | first :: rest, env, ids => by
    rw [Lexical.checkStmts]
    refine (checkStmt first env _).bind fun p => ?_
    exact (checkStmts rest p.2 ids.tail).bind fun stmts => Grows.pure _

theorem checkStmt : ∀ (stmt : PStmt) (env : Env) (id : SymbolId), Grows (checkStmt env id stmt)
  | .letIn name type first chained span _, env, id => by
    rw [Lexical.checkStmt]
    refine (lift _).bind fun declared => (expr first env.inner).bind fun first => ?_
    refine (require _ _).bind fun _ => (addLocal _ _ _).bind fun p => ?_
    exact (chain chained p.1 _ _).bind fun chained => Grows.pure _
  | .func name params returns body span _, env, id => by
    rw [Lexical.checkStmt]
    refine get.bind fun symbols => ?_
    split
    · refine (block body _).bind fun body => (blockValue _).bind fun bodyType => ?_
      exact (require _ _).bind fun _ => Grows.pure _
    · exact fail _
  | .record .., env, id => get.bind fun _ => Grows.pure _
  | .expr value, env, id => by
    rw [Lexical.checkStmt]
    exact (expr value env).bind fun value => Grows.pure _

end

end Grows

end Lexical

end LetChain
