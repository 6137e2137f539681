import LetChain.Proofs.Syntax.Reading
import LetChain.Proofs.Typing.Growth

/-! What hoisting enters into the table of symbols: for each record and function its own symbol, and one
for each of its fields or parameters. -/

namespace LetChain

open Stateful (bind_eq_ok except_bind_eq_ok lift_eq_ok)

def Symbols.members (s : Symbols) (id : SymbolId) : List SymbolId :=
  match (s.get id).kind with
  | .record fields => fields
  | .function params _ _ => params
  | _ => []

namespace Lexical

open Resolve (PExpr PStmt TExpr TStmt Expected)

def Fresh (low high : Nat) (ids : List SymbolId) : Prop := ids.Perm (List.range' low (high - low))

namespace Fresh

variable {low middle high : Nat} {ids ids' : List SymbolId}

theorem nil (low : Nat) : Fresh low low [] := by simp [Fresh]

theorem range (low count : Nat) : Fresh low (low + count) (List.range' low count) := by simp [Fresh]

theorem single (low : Nat) : Fresh low (low + 1) [low] := range low 1

theorem append (left : Fresh low middle ids) (right : Fresh middle high ids') (below : low ≤ middle)
    (above : middle ≤ high) : Fresh low high (ids ++ ids') := by
  have whole : List.range' low (high - low) =
      List.range' low (middle - low) ++ List.range' middle (high - middle) := by
    have joined := @List.range'_append_1 low (middle - low) (high - middle)
    rw [show low + (middle - low) = middle by omega] at joined
    rw [joined]
    congr 1
    omega
  rw [Fresh, whole]
  exact List.Perm.append left right

theorem perm (fresh : Fresh low high ids) (same : ids'.Perm ids) : Fresh low high ids' :=
  same.trans fresh

theorem mem (fresh : Fresh low high ids) {id : Nat} (listed : id ∈ ids) :
    low ≤ id ∧ id < high := by
  have placed : low ≤ id ∧ id < low + (high - low) :=
    List.mem_range'_1.mp ((List.Perm.mem_iff fresh).mp listed)
  omega

theorem nodup (fresh : Fresh low high ids) : ids.Nodup :=
  (List.Perm.nodup_iff fresh).mpr List.nodup_range'

end Fresh

/-! ### Runs that succeed -/

section Runs

variable {env env' : Env} {s s' : Symbols} {id : SymbolId} {ids : List SymbolId}

theorem pure_eq_ok {α : Type} {a b : α} :
    (pure a : Check α) s = .ok (b, s') ↔ a = b ∧ s = s' := by
  change Except.ok (a, s) = .ok (b, s') ↔ _
  simp

theorem require_eq_ok {condition : Prop} [Decidable condition] {error : CompileError}
    {done : Unit} : require condition error s = .ok (done, s') ↔ condition ∧ s = s' := by
  unfold require
  split
  · simp [pure_eq_ok, *]
  · change Except.error error = .ok (done, s') ↔ _
    simp [*]

theorem addSymbol_eq_ok {symbol : Symbol} :
    addSymbol symbol s = .ok (id, s') ↔ s.size = id ∧ s.push symbol = s' := by
  change Except.ok (s.size, s.push symbol) = .ok (id, s') ↔ _
  simp

theorem setKind_eq_ok {kind : SymbolKind} {done : Unit} :
    setKind id kind s = .ok (done, s') ↔ s.setKind id kind = s' := by
  change Except.ok ((), s.setKind id kind) = .ok (done, s') ↔ _
  simp

theorem declare_eq_ok {name : Ident} : env.declare name id = .ok env' ↔
    env.layer.names.lookup name.text = none ∧
      { env with layer.names := env.layer.names ++ [(name.text, id)] } = env' := by
  rw [Env.declare]
  cases env.layer.names.lookup name.text <;> simp

theorem declareType_eq_ok {name : Ident} {ty : Ty} : env.declareType name ty = .ok env' ↔
    env.layer.types.lookup name.text = none ∧
      { env with layer.types := env.layer.types ++ [(name.text, ty)] } = env' := by
  rw [Env.declareType]
  cases env.layer.types.lookup name.text <;> simp

theorem typesOf_cons {first : TypeRef} {rest : List TypeRef} {types : List Ty} :
    typesOf env (first :: rest) = .ok types ↔
      ∃ ty others, typeOf env first = .ok ty ∧ typesOf env rest = .ok others ∧
        types = ty :: others := by
  simp only [typesOf, except_bind_eq_ok]
  constructor
  · rintro ⟨ty, typed, others, rest, ran⟩
    cases ran
    exact ⟨ty, others, typed, rest, rfl⟩
  · rintro ⟨ty, others, typed, rest, rfl⟩
    exact ⟨ty, typed, others, rest, rfl⟩

theorem typesOf_length {env : Env} : ∀ {refs : List TypeRef} {types : List Ty},
    typesOf env refs = .ok types → types.length = refs.length
  | [], types, ran => by
    cases ran
    rfl
  | first :: rest, types, ran => by
    obtain ⟨ty, others, -, ranRest, rfl⟩ := typesOf_cons.mp ran
    simp [typesOf_length ranRest]

mutual

theorem typeOf_congr (same : ∀ name, env'.type? name = env.type? name) :
    ∀ type : TypeRef, typeOf env' type = typeOf env type
  | ⟨name, args, span⟩ => by rw [typeOf, typeOf, same, typesOf_congr same args]

theorem typesOf_congr (same : ∀ name, env'.type? name = env.type? name) :
    ∀ types : List TypeRef, typesOf env' types = typesOf env types
  | [] => rfl
  | first :: rest => by rw [typesOf, typesOf, typeOf_congr same first, typesOf_congr same rest]

end

/-! ### Members -/

def memberSymbols (kind : Nat → SymbolKind) (owner : Option SymbolId) :
    Nat → List (Binding .parsed) → List Ty → List Symbol
  | index, member :: rest, ty :: types =>
    ⟨member.name.text, ty, kind index, member.name.span, owner⟩ ::
      memberSymbols kind owner (index + 1) rest types
  | _, _, _ => []

def Fitting : Nat → List String → List (Binding .parsed) → Prop
  | _, _, [] => True
  | index, seen, member :: rest => member.name.text ∉ seen ∧ index ≤ Resolve.maxIndex ∧
    Fitting (index + 1) (member.name.text :: seen) rest

theorem push_append {symbol : Symbol} {new : List Symbol} :
    (s.push symbol) ++ new.toArray = s ++ (symbol :: new).toArray := by
  apply Array.ext'
  simp

theorem fields_eq_ok {record index : Nat} {seen : List String} {declared : List (Binding .parsed)} :
    fields env record index seen declared s = .ok (ids, s') ↔
      ∃ types, typesOf env (declared.map (·.type)) = .ok types ∧ Fitting index seen declared ∧
        ids = List.range' s.size declared.length ∧
        s' = s ++ (memberSymbols (.field record) none index declared types).toArray := by
  induction declared generalizing index seen s ids s' with
  | nil =>
    simp only [fields, pure_eq_ok, List.map_nil, typesOf, Fitting, memberSymbols]
    grind
  | cons field rest ih =>
    simp only [fields, bind_eq_ok, require_eq_ok, lift_eq_ok, addSymbol_eq_ok, pure_eq_ok, ih,
      List.map_cons, typesOf_cons, Fitting, List.length_cons, List.range'_succ]
    constructor
    · rintro ⟨_, _, ⟨unseen, rfl⟩, ty, _, ⟨typed, rfl⟩, _, _, ⟨small, rfl⟩, _, _, ⟨rfl, rfl⟩, _, _,
        ⟨types, areTyped, fitting, rfl, rfl⟩, rfl, rfl⟩
      refine ⟨_, ⟨ty, types, typed, areTyped, rfl⟩, ⟨unseen, small, fitting⟩, by simp, ?_⟩
      rw [push_append, memberSymbols]
    · rintro ⟨_, ⟨ty, types, typed, areTyped, rfl⟩, ⟨unseen, small, fitting⟩, rfl, rfl⟩
      refine ⟨(), _, ⟨unseen, rfl⟩, ty, _, ⟨typed, rfl⟩, (), _, ⟨small, rfl⟩, _, _, ⟨rfl, rfl⟩, _, _,
        ⟨types, areTyped, fitting, rfl, rfl⟩, by simp, ?_⟩
      rw [push_append, memberSymbols]

theorem params_eq_ok {owner index : Nat} {seen : List String} {declared : List (Binding .parsed)}
    {types : List Ty} (length : types.length = declared.length)
    (same : ∀ name, env.layer.names.lookup name = none ↔ name ∉ seen) :
    params env owner index (declared.zip types) s = .ok (ids, s') ↔
      Fitting index seen declared ∧ ids = List.range' s.size declared.length ∧
        s' = s ++ (memberSymbols .param (some owner) index declared types).toArray := by
  induction declared generalizing env index seen types s ids s' with
  | nil =>
    simp only [List.zip_nil_left, params, pure_eq_ok, Fitting, memberSymbols]
    grind
  | cons param rest ih =>
    obtain _ | ⟨ty, types⟩ := types
    · cases length
    have later (id : SymbolId) (name : String) :
        (env.layer.names ++ [(param.name.text, id)]).lookup name = none ↔
          name ∉ param.name.text :: seen := by
      rw [List.lookup_append, Option.or_eq_none_iff, same, List.lookup_cons]
      cases here : name == param.name.text <;> simp_all
    simp only [List.zip_cons_cons, params, bind_eq_ok, require_eq_ok, lift_eq_ok, addSymbol_eq_ok,
      pure_eq_ok, declare_eq_ok, Fitting, List.length_cons, List.range'_succ, same]
    constructor
    · rintro ⟨_, _, ⟨small, rfl⟩, _, _, ⟨rfl, rfl⟩, _, _, ⟨⟨unseen, rfl⟩, rfl⟩, _, _, ran, rfl, rfl⟩
      obtain ⟨fitting, rfl, rfl⟩ := (ih (by simpa using length) (later _)).mp ran
      refine ⟨⟨unseen, small, fitting⟩, by simp, ?_⟩
      rw [push_append, memberSymbols]
    · rintro ⟨⟨unseen, small, fitting⟩, rfl, rfl⟩
      refine ⟨(), _, ⟨small, rfl⟩, _, _, ⟨rfl, rfl⟩, _, _, ⟨⟨unseen, rfl⟩, rfl⟩, _, _,
        (ih (by simpa using length) (later _)).mpr ⟨fitting, rfl, rfl⟩, by simp, ?_⟩
      rw [push_append, memberSymbols]

def functionSymbol (own : SymbolId) (name : Ident) (params : Nat) (returnType : Ty) (span : Span) :
    Symbol :=
  ⟨name.text, .function, .function (List.range' (own + 1) params) returnType 0, span, none⟩

theorem setKind_append {symbol : Symbol} {kind : SymbolKind} {new : List Symbol} :
    Symbols.setKind (s ++ (symbol :: new).toArray) s.size kind =
      s ++ ({ symbol with kind := kind } :: new).toArray := by
  refine Array.ext_getElem? fun place => ?_
  simp only [Symbols.setKind, Array.getElem?_modify, Array.getElem?_append, List.getElem?_toArray]
  by_cases own : s.size = place
  · subst own
    simp
  · rw [if_neg own]
    by_cases below : place < s.size
    · simp [below]
    · obtain ⟨more, isMore⟩ : ∃ more, place - s.size = more + 1 := ⟨place - s.size - 1, by omega⟩
      simp [below, isMore]

theorem function_eq_ok {name : Ident} {declared : List (Binding .parsed)} {returns : TypeRef}
    {span : Span} : function env name declared returns span s = .ok ((env', id), s') ↔
      ∃ returnType types, typeOf env returns = .ok returnType ∧ env.declare name s.size = .ok env' ∧
        typesOf env (declared.map (·.type)) = .ok types ∧ Fitting 0 [] declared ∧ id = s.size ∧
        s' = s ++ (functionSymbol s.size name declared.length returnType span ::
          memberSymbols .param (some s.size) 0 declared types).toArray := by
  have params_ok {env : Env} {owner : SymbolId} {types : List Ty} {ids : List SymbolId}
      {s s' : Symbols} (typed : typesOf env (declared.map (·.type)) = .ok types) :
      params env.inner owner 0 (declared.zip types) s = .ok (ids, s') ↔
        Fitting 0 [] declared ∧ ids = List.range' s.size declared.length ∧
          s' = s ++ (memberSymbols .param (some owner) 0 declared types).toArray :=
    params_eq_ok (by simpa using typesOf_length typed) fun _ => by simp [Env.inner]
  have sameTypes {env' : Env} (named : env.declare name s.size = .ok env') :
      typesOf env' (declared.map (·.type)) = typesOf env (declared.map (·.type)) := by
    obtain ⟨-, rfl⟩ := declare_eq_ok.mp named
    refine typesOf_congr (fun _ => ?_) _
    rfl
  simp only [function, bind_eq_ok, lift_eq_ok, addSymbol_eq_ok, pure_eq_ok, setKind_eq_ok]
  constructor
  · rintro ⟨returnType, _, ⟨typed, rfl⟩, _, _, ⟨rfl, rfl⟩, _, _, ⟨named, rfl⟩, types, _, ⟨areTyped, rfl⟩,
      ids, _, ran, _, _, rfl, same, rfl⟩
    cases same
    obtain ⟨fitting, rfl, rfl⟩ := (params_ok areTyped).mp ran
    refine ⟨returnType, types, typed, named, sameTypes named ▸ areTyped, fitting, rfl, ?_⟩
    rw [push_append, setKind_append, functionSymbol, Array.size_push]
  · rintro ⟨returnType, types, typed, named, areTyped, fitting, rfl, rfl⟩
    rw [← sameTypes named] at areTyped
    refine ⟨returnType, _, ⟨typed, rfl⟩, _, _, ⟨rfl, rfl⟩, _, _, ⟨named, rfl⟩, types, _, ⟨areTyped, rfl⟩,
      _, _, (params_ok areTyped).mpr ⟨fitting, rfl, rfl⟩, (), _, rfl, rfl, ?_⟩
    rw [push_append, setKind_append, functionSymbol, Array.size_push]

end Runs

theorem memberSymbols_length (kind : Nat → SymbolKind) (owner : Option SymbolId) (index : Nat)
    {declared : List (Binding .parsed)} {types : List Ty} (length : types.length = declared.length) :
    (memberSymbols kind owner index declared types).length = declared.length := by
  induction declared generalizing index types with
  | nil => simp [memberSymbols]
  | cons member rest ih =>
    cases types with
    | nil => simp at length
    | cons ty types => simp [memberSymbols, ih _ (by simpa using length)]

/-! ### Declarations -/

/-- A record or function with these members: what it declares them as, its own symbol, and the kind and
owner of theirs. -/
inductive Heading (env : Env) (id : SymbolId) (members : List SymbolId) :
    PStmt → List (Binding .parsed) → Symbol → (Nat → SymbolKind) → Option SymbolId → Prop
  | record (name : Ident) (declared : List (Binding .parsed)) (span : Span) (sym : Unit) :
      Heading env id members (.record name declared span sym) declared
        ⟨name.text, .record id name.text, .record members, span, none⟩ (.field id) none
  | func (name : Ident) (declared : List (Binding .parsed)) {returns : TypeRef} {ty : Ty}
      (body : Block .parsed) (span : Span) (sym : Unit) (returning : typeOf env returns = .ok ty) :
      Heading env id members (.func name declared returns body span sym) declared
        ⟨name.text, .function, .function members ty 0, span, none⟩ .param (some id)

inductive Entered (env : Env) (s : Symbols) (stmt : PStmt) (id : SymbolId) : Prop
  | intro {members : List SymbolId} {declared : List (Binding .parsed)} {types : List Ty}
      {symbol : Symbol} {kind : Nat → SymbolKind} {owner : Option SymbolId}
      (heading : Heading env id members stmt declared symbol kind owner)
      (typed : typesOf env (declared.map (·.type)) = .ok types) (fitting : Fitting 0 [] declared)
      (own : s[id]? = some symbol)
      (known : members.map (s[·]?) = (memberSymbols kind owner 0 declared types).map some)

theorem Extends.getElem? {floor : Nat} {s s' : Symbols} (extended : Extends floor s s')
    {id : SymbolId} {symbol : Symbol} (below : id < floor) (found : s[id]? = some symbol) :
    s'[id]? = some symbol := by
  obtain ⟨bound, isSymbol⟩ := Array.getElem?_eq_some_iff.mp found
  have same := extended.same id below
  have bound' := Nat.lt_of_lt_of_le bound extended.more
  simp [Symbols.get, bound, bound'] at same
  rw [Array.getElem?_eq_getElem bound', same, isSymbol]

theorem Entered.extend {env : Env} {s s' : Symbols} {stmt : PStmt} {id : SymbolId}
    (entered : Entered env s stmt id) (extended : Extends s.size s s') : Entered env s' stmt id := by
  have keep (other : SymbolId) (symbol : Symbol) (found : s[other]? = some symbol) :
      s'[other]? = some symbol :=
    extended.getElem? (Array.getElem?_eq_some_iff.mp found).1 found
  obtain ⟨heading, typed, fitting, own, known⟩ := entered
  refine ⟨heading, typed, fitting, keep _ _ own, known ▸ List.map_congr_left fun member listed => ?_⟩
  obtain ⟨symbol, -, found⟩ := List.mem_map.mp (known ▸ List.mem_map_of_mem listed)
  rw [keep _ _ found.symm, found]

theorem getElem?_append_range (s : Symbols) (before new : List Symbol) :
    (List.range' (s.size + before.length) new.length).map ((s ++ (before ++ new).toArray)[·]?) =
      new.map some := by
  refine List.ext_getElem? fun place => ?_
  by_cases bound : place < new.length
  · simp [bound, Array.getElem?_append, Nat.add_assoc]
  · simp [Nat.not_lt.mp bound]

/-! ### Names -/

def recordHere? : PStmt × Option SymbolId → Option (String × SymbolId)
  | (.record name _ _ _, some id) => some (name.text, id)
  | _ => none

def functionEntry? : PStmt × Option SymbolId → Option (String × SymbolId)
  | (.func name _ _ _ _ _, some id) => some (name.text, id)
  | _ => none

structure Named (entries : List (String × SymbolId)) (env env' : Env) : Prop where
  names : env'.layer.names = env.layer.names ++ entries
  distinct : (env.layer.names.map Prod.fst).Nodup → (env'.layer.names.map Prod.fst).Nodup
  outer : env'.outer = env.outer
  owner : env'.owner = env.owner

namespace Named

variable {entries entries' : List (String × SymbolId)} {env env' env'' : Env}

theorem nil : Named [] env env := ⟨by simp, id, rfl, rfl⟩

theorem trans (first : Named entries env env') (second : Named entries' env' env'') :
    Named (entries ++ entries') env env'' :=
  ⟨by rw [second.names, first.names, List.append_assoc], second.distinct ∘ first.distinct,
    second.outer.trans first.outer, second.owner.trans first.owner⟩

theorem declare {name : Ident} {id : SymbolId} (declared : env.declare name id = .ok env') :
    Named [(name.text, id)] env env' := by
  obtain ⟨absent, rfl⟩ := declare_eq_ok.mp declared
  refine ⟨rfl, fun distinct => ?_, rfl, rfl⟩
  rw [List.lookup_eq_none_iff] at absent
  simp only [List.map_append, List.map_cons, List.map_nil]
  refine List.nodup_append.mpr ⟨distinct, by simp, ?_⟩
  simp only [List.mem_map, List.mem_singleton]
  rintro _ ⟨entry, listed, rfl⟩ _ rfl same
  simpa [same] using absent entry listed

end Named

/-! ### Records -/

theorem recordName_eq_ok {env env' : Env} {name : Ident} {span : Span} {s s' : Symbols}
    {id : SymbolId} : recordName env name span s = .ok ((env', id), s') ↔
      ∃ between, env.declare name s.size = .ok between ∧
        between.declareType name (.record s.size name.text) = .ok env' ∧ s.size = id ∧
        s.push ⟨name.text, .record s.size name.text, .record [], span, none⟩ = s' := by
  simp only [recordName, bind_eq_ok, addSymbol_eq_ok, lift_eq_ok, pure_eq_ok, Prod.mk.injEq]
  constructor
  · rintro ⟨_, _, got, _, _, ⟨rfl, rfl⟩, between, _, ⟨named, rfl⟩, _, _, ⟨typed, rfl⟩, ⟨rfl, rfl⟩, rfl⟩
    cases got
    exact ⟨between, named, typed, rfl, rfl⟩
  · rintro ⟨between, named, typed, rfl, rfl⟩
    exact ⟨s, s, rfl, _, _, ⟨rfl, rfl⟩, between, _, ⟨named, rfl⟩, env', _, ⟨typed, rfl⟩, ⟨rfl, rfl⟩, rfl⟩

def Announced (s : Symbols) : PStmt → Option SymbolId → Prop
  | .record name _ span _, id? => ∃ id, id? = some id ∧
      s[id]? = some ⟨name.text, .record id name.text, .record [], span, none⟩
  | _, _ => True

structure RecordsNamed (env env' : Env) (s s' : Symbols) (stmts : List PStmt)
    (ids : List (Option SymbolId)) : Prop where
  length : ids.length = stmts.length
  ext : Extends s.size s s'
  each : ∀ pair ∈ stmts.zip ids, Announced s' pair.1 pair.2
  fresh : Fresh s.size s'.size (((stmts.zip ids).filterMap recordHere?).map Prod.snd)
  named : Named ((stmts.zip ids).filterMap recordHere?) env env'
  types : env'.layer.types = env.layer.types ++
    ((stmts.zip ids).filterMap recordHere?).map fun entry => (entry.1, .record entry.2 entry.1)
  newTypes : ∀ entry ∈ (stmts.zip ids).filterMap recordHere?, env.layer.types.lookup entry.1 = none

theorem recordNames_spec {env env' : Env} {stmts : List PStmt} {s s' : Symbols}
    {ids : List (Option SymbolId)} (ran : recordNames env stmts s = .ok ((env', ids), s')) :
    RecordsNamed env env' s s' stmts ids := by
  induction stmts generalizing env s ids with
  | nil =>
    cases ran
    exact ⟨rfl, .refl _ _, by simp, .nil _, .nil, by simp, by simp⟩
  | cons stmt rest ih =>
    cases stmt with
    | record name declared span sym =>
      obtain ⟨⟨env₁, id⟩, s₁, ranName, ran⟩ := bind_eq_ok.mp ran
      obtain ⟨⟨env₂, ids₂⟩, s₂, ranRest, ran⟩ := bind_eq_ok.mp ran
      cases ran
      obtain ⟨between, declaredName, declaredType, rfl, rfl⟩ := recordName_eq_ok.mp ranName
      obtain ⟨absent, rfl⟩ := declareType_eq_ok.mp declaredType
      have first := Named.declare declaredName
      have others := ih ranRest
      have pushed := Extends.push s ⟨name.text, .record s.size name.text, .record [], span, none⟩
      refine ⟨by simp [others.length], pushed.trans (others.ext.lower pushed.more), ?_, ?_, ?_, ?_, ?_⟩
      · refine List.forall_mem_cons.mpr ⟨⟨s.size, rfl, others.ext.getElem? ?_ ?_⟩, others.each⟩
        · simp
        · simp
      · have rest := others.fresh
        rw [Array.size_push] at rest
        exact (Fresh.single s.size).append rest (by omega) (by simpa using others.ext.more)
      · exact first.trans ⟨others.named.names, others.named.distinct, others.named.outer,
          others.named.owner⟩
      · rw [others.types]
        obtain ⟨-, rfl⟩ := declare_eq_ok.mp declaredName
        simp [recordHere?]
      · obtain ⟨-, rfl⟩ := declare_eq_ok.mp declaredName
        refine List.forall_mem_cons.mpr ⟨absent, fun entry listed => ?_⟩
        have later := others.newTypes entry listed
        rw [List.lookup_append, Option.or_eq_none_iff] at later
        exact later.1
    | _ =>
      obtain ⟨⟨env₁, ids₁⟩, s₁, ranRest, ran⟩ := bind_eq_ok.mp ran
      cases ran
      have others := ih ranRest
      exact ⟨by simp [others.length], others.ext, List.forall_mem_cons.mpr ⟨trivial, others.each⟩,
        others.fresh, others.named, others.types, others.newTypes⟩

theorem announced_bound {s : Symbols} {pairs : List (PStmt × Option SymbolId)}
    (announced : ∀ pair ∈ pairs, Announced s pair.1 pair.2) :
    ∀ id ∈ (pairs.filterMap recordHere?).map Prod.snd, id < s.size := by
  simp only [List.mem_map, List.mem_filterMap]
  rintro _ ⟨⟨name, id⟩, ⟨⟨stmt, id?⟩, listed, isEntry⟩, rfl⟩
  cases stmt with
  | record other declared span sym =>
    obtain ⟨own, rfl, found⟩ := announced _ listed
    cases isEntry
    exact (Array.getElem?_eq_some_iff.mp found).1
  | _ => cases isEntry

def Prepared (env : Env) (s : Symbols) : PStmt → Option SymbolId → Prop
  | .record name declared span sym, id? => ∃ id, id? = some id ∧
      Entered env s (.record name declared span sym) id
  | _, _ => True

theorem Prepared.extend {env : Env} {s s' : Symbols} {stmt : PStmt} {id? : Option SymbolId}
    (prepared : Prepared env s stmt id?) (extended : Extends s.size s s') :
    Prepared env s' stmt id? := by
  cases stmt with
  | record name declared span sym =>
    obtain ⟨id, isId, entered⟩ := prepared
    exact ⟨id, isId, entered.extend extended⟩
  | _ => trivial

structure FieldsEntered (env : Env) (s s' : Symbols) (pairs : List (PStmt × Option SymbolId)) :
    Prop where
  more : s.size ≤ s'.size
  same : ∀ id, id < s.size → id ∉ (pairs.filterMap recordHere?).map Prod.snd → s'[id]? = s[id]?
  each : ∀ pair ∈ pairs, Prepared env s' pair.1 pair.2
  fresh : Fresh s.size s'.size (((pairs.filterMap recordHere?).map Prod.snd).flatMap s'.members)

theorem allFields_spec {env base : Env} {pairs : List (PStmt × Option SymbolId)} {s s' : Symbols}
    {done : Unit} (ran : allFields env pairs s = .ok (done, s'))
    (types : ∀ name, env.type? name = base.type? name)
    (announced : ∀ pair ∈ pairs, Announced s pair.1 pair.2)
    (distinct : ((pairs.filterMap recordHere?).map Prod.snd).Nodup) :
    FieldsEntered base s s' pairs := by
  induction pairs generalizing s with
  | nil =>
    cases ran
    exact ⟨Nat.le_refl _, fun _ _ _ => rfl, by simp, .nil _⟩
  | cons pair rest ih =>
    obtain ⟨stmt, id?⟩ := pair
    obtain ⟨here, later⟩ := List.forall_mem_cons.mp announced
    cases stmt with
    | record name declared span sym =>
      obtain ⟨id, rfl, found⟩ := here
      obtain ⟨ids, s₁, ranFields, ran⟩ := bind_eq_ok.mp ran
      obtain ⟨_, s₂, set, ranRest⟩ := bind_eq_ok.mp ran
      obtain ⟨fieldTypes, typed, fitting, rfl, rfl⟩ := fields_eq_ok.mp ranFields
      rw [typesOf_congr types] at typed
      have bound := (Array.getElem?_eq_some_iff.mp found).1
      have length := memberSymbols_length (.field id) none 0
        (by simpa using typesOf_length typed)
      generalize isNew : memberSymbols (.field id) none 0 declared fieldTypes = new at *
      simp only [List.filterMap_cons, recordHere?, List.map_cons, List.nodup_cons] at distinct
      obtain rfl := setKind_eq_ok.mp set
      have size : (Symbols.setKind (s ++ new.toArray) id
          (.record (List.range' s.size declared.length))).size = s.size + declared.length := by
        simp [length]
      have get (other : SymbolId) : (Symbols.setKind (s ++ new.toArray) id
          (.record (List.range' s.size declared.length)))[other]? = _ :=
        Array.getElem?_modify
      generalize Symbols.setKind (s ++ new.toArray) id
        (.record (List.range' s.size declared.length)) = s₂ at *
      have kept (other : SymbolId) (before : other < s.size) (apart : other ≠ id) :
          s₂[other]? = s[other]? := by
        rw [get, if_neg (Ne.symm apart), Array.getElem?_append_left before]
      have others := ih ranRest (fun pair listed => ?_) distinct.2
      · have below := announced_bound later
        have own : s'[id]? = some ⟨name.text, .record id name.text,
            .record (List.range' s.size declared.length), span, none⟩ := by
          rw [others.same id (by omega) distinct.1, get, if_pos rfl, Array.getElem?_append_left bound,
            found]
          rfl
        have known : (List.range' s.size declared.length).map (s'[·]?) = new.map some := by
          rw [← getElem?_append_range s [] new, length]
          refine List.map_congr_left fun other listed => ?_
          have place := List.mem_range'_1.mp listed
          rw [others.same other (by omega) fun old => Nat.not_lt_of_le place.1 (below _ old), get,
            if_neg (by omega)]
          rfl
        refine ⟨by have := others.more; omega, fun other before apart => ?_, ?_, ?_⟩
        · simp only [List.filterMap_cons, recordHere?, List.map_cons, List.mem_cons, not_or] at apart
          rw [others.same other (by omega) apart.2, kept other before apart.1]
        · exact List.forall_mem_cons.mpr
            ⟨⟨id, rfl, .record name declared span sym, typed, fitting, own, isNew ▸ known⟩, others.each⟩
        · have members : s'.members id = List.range' s.size declared.length := by
            simp [Symbols.members, Symbols.get, own]
          have rest := others.fresh
          rw [size] at rest
          simp only [List.filterMap_cons, recordHere?, List.map_cons, List.flatMap_cons, members]
          exact (Fresh.range _ _).append rest (by omega) (size ▸ others.more)
      · have own := later pair listed
        obtain ⟨stmt, id?⟩ := pair
        cases stmt with
        | record otherName otherFields otherSpan otherSym =>
          obtain ⟨other, rfl, isOther⟩ := own
          refine ⟨other, rfl, (kept other (Array.getElem?_eq_some_iff.mp isOther).1 ?_).trans isOther⟩
          rintro rfl
          exact distinct.1 (List.mem_map.mpr ⟨_, List.mem_filterMap.mpr ⟨_, listed, rfl⟩, rfl⟩)
        | _ => trivial
    | _ =>
      have others := ih ran later distinct
      exact ⟨others.more, others.same, List.forall_mem_cons.mpr ⟨trivial, others.each⟩, others.fresh⟩

def Owns (env : Env) (s : Symbols) (stmt : PStmt) (id? : Option SymbolId) : Prop :=
  stmt.IsDeclaration → ∃ id, id? = some id ∧ Entered env s stmt id

structure FunctionsEntered (env env' : Env) (s s' : Symbols)
    (pairs : List (PStmt × Option SymbolId)) (ids : List (Option SymbolId)) : Prop where
  length : ids.length = pairs.length
  ext : Extends s.size s s'
  each : ∀ base, (∀ name, env.type? name = base.type? name) →
    (∀ pair ∈ pairs, Prepared base s pair.1 pair.2) →
    ∀ pair ∈ (pairs.map Prod.fst).zip ids, Owns base s' pair.1 pair.2
  records : ((pairs.map Prod.fst).zip ids).filterMap recordHere? = pairs.filterMap recordHere?
  fresh : Fresh s.size s'.size ((((pairs.map Prod.fst).zip ids).filterMap functionEntry?).flatMap
    fun entry => entry.2 :: s'.members entry.2)
  named : Named (((pairs.map Prod.fst).zip ids).filterMap functionEntry?) env env'
  types : env'.layer.types = env.layer.types

theorem functions_spec {env env' : Env} {pairs : List (PStmt × Option SymbolId)} {s s' : Symbols}
    {ids : List (Option SymbolId)} (ran : functions env pairs s = .ok ((env', ids), s')) :
    FunctionsEntered env env' s s' pairs ids := by
  induction pairs generalizing env s ids with
  | nil =>
    cases ran
    exact ⟨rfl, .refl _ _, by simp, rfl, .nil _, .nil, rfl⟩
  | cons pair rest ih =>
    obtain ⟨stmt, id?⟩ := pair
    cases stmt with
    | func name declared returns body span sym =>
      obtain ⟨⟨env₁, new⟩, s₁, ranFunction, ran⟩ := bind_eq_ok.mp ran
      obtain ⟨⟨env₂, ids₂⟩, s₂, ranRest, ran⟩ := bind_eq_ok.mp ran
      cases ran
      obtain ⟨ty, types, returning, declaredName, typed, fitting, rfl, rfl⟩ :=
        function_eq_ok.mp ranFunction
      have others := ih ranRest
      have first := Named.declare declaredName
      obtain ⟨-, rfl⟩ := declare_eq_ok.mp declaredName
      have length := memberSymbols_length .param (some s.size) 0
        (by simpa using typesOf_length typed)
      generalize isOwn : functionSymbol s.size name declared.length ty span = symbol at *
      generalize isNew : memberSymbols .param (some s.size) 0 declared types = new at *
      have placed := getElem?_append_range s [symbol] new
      have extended := Extends.append s (symbol :: new).toArray
      have size : (s ++ (symbol :: new).toArray).size = s.size + (declared.length + 1) := by
        simp [length]
      have own : (s ++ (symbol :: new).toArray)[s.size]? = some symbol := by simp
      rw [length] at placed
      refine ⟨by simp [others.length], extended.trans (others.ext.lower extended.more), ?_, ?_, ?_,
        first.trans others.named, others.types⟩
      · intro base same prepared
        rw [typeOf_congr same] at returning
        rw [typesOf_congr same] at typed
        subst isOwn isNew
        have entered := Entered.intro (.func name declared body span sym returning) typed fitting own
          placed
        exact List.forall_mem_cons.mpr ⟨fun _ => ⟨s.size, rfl, entered.extend others.ext⟩,
          others.each base same fun pair listed =>
            (prepared pair (List.mem_cons_of_mem _ listed)).extend extended⟩
      · simpa [List.filterMap_cons, recordHere?] using others.records
      · have members : s'.members s.size = List.range' (s.size + 1) declared.length := by
          have found := others.ext.getElem? (by simp) own
          simp [Symbols.members, Symbols.get, found, ← isOwn, functionSymbol]
        have rest := others.fresh
        rw [size] at rest
        simp only [List.map_cons, List.zip_cons_cons, List.filterMap_cons, functionEntry?,
          List.flatMap_cons, members]
        exact (Fresh.range s.size (declared.length + 1)).append rest (by omega) (size ▸ others.ext.more)
    | record name declared span sym =>
      obtain ⟨⟨env₁, ids₁⟩, s₁, ranRest, ran⟩ := bind_eq_ok.mp ran
      cases ran
      have others := ih ranRest
      refine ⟨by simp [others.length], others.ext, fun base same prepared => ?_, ?_, others.fresh,
        others.named, others.types⟩
      · obtain ⟨here, later⟩ := List.forall_mem_cons.mp prepared
        exact List.forall_mem_cons.mpr ⟨fun _ => here.extend others.ext, others.each base same later⟩
      · simp [List.filterMap_cons, others.records]
    | letIn | expr =>
      obtain ⟨⟨env₁, ids₁⟩, s₁, ranRest, ran⟩ := bind_eq_ok.mp ran
      cases ran
      have others := ih ranRest
      exact ⟨by simp [others.length], others.ext, fun base same prepared => List.forall_mem_cons.mpr
        ⟨False.elim, others.each base same (List.forall_mem_cons.mp prepared).2⟩, others.records,
        others.fresh, others.named, others.types⟩

/-! ### All that is hoisted -/

def ownSymbols (s : Symbols) (id : SymbolId) : PStmt → List SymbolId
  | .func .. | .record .. => id :: s.members id
  | _ => []

def hoistedSymbols (s : Symbols) (pairs : List (PStmt × Option SymbolId)) : List SymbolId :=
  pairs.flatMap fun pair => ownSymbols s (pair.2.getD 0) pair.1

theorem hoistedSymbols_perm {env : Env} {s : Symbols} {pairs : List (PStmt × Option SymbolId)}
    (each : ∀ pair ∈ pairs, Owns env s pair.1 pair.2) :
    (hoistedSymbols s pairs).Perm ((pairs.filterMap recordHere?).map Prod.snd ++
      (((pairs.filterMap recordHere?).map Prod.snd).flatMap s.members ++
        (pairs.filterMap functionEntry?).flatMap fun entry => entry.2 :: s.members entry.2)) := by
  induction pairs with
  | nil => exact List.Perm.refl _
  | cons pair rest ih =>
    obtain ⟨stmt, id?⟩ := pair
    obtain ⟨own, later⟩ := List.forall_mem_cons.mp each
    have others := ih later
    rw [List.perm_iff_count] at others ⊢
    intro sym
    have count := others sym
    cases stmt with
    | func | record =>
      obtain ⟨id, rfl, -⟩ := own trivial
      simp only [hoistedSymbols, ownSymbols, List.filterMap_cons, recordHere?, functionEntry?,
        List.map_cons, List.count_append, List.flatMap_cons, List.count_cons, Option.getD_some,
        List.cons_append] at count ⊢
      omega
    | letIn | expr => exact count

theorem Extends.members {floor : Nat} {s s' : Symbols} (extended : Extends floor s s')
    {id : SymbolId} (bound : id < floor) : s'.members id = s.members id := by
  rw [Symbols.members, Symbols.members, extended.same id bound]

/-- Hoisting makes the symbols of its functions and records and of their members, and no others. -/
structure HoistedAll (env env' : Env) (s s' : Symbols) (stmts : List PStmt)
    (ids : List (Option SymbolId)) : Prop where
  length : ids.length = stmts.length
  ext : Extends s.size s s'
  each : ∀ pair ∈ stmts.zip ids, Owns env' s' pair.1 pair.2
  fresh : Fresh s.size s'.size (hoistedSymbols s' (stmts.zip ids))
  named : Named ((stmts.zip ids).filterMap recordHere? ++
    (stmts.zip ids).filterMap functionEntry?) env env'
  types : env'.layer.types = env.layer.types ++
    ((stmts.zip ids).filterMap recordHere?).map fun entry => (entry.1, .record entry.2 entry.1)
  newTypes : ∀ entry ∈ (stmts.zip ids).filterMap recordHere?, env.layer.types.lookup entry.1 = none

theorem hoist_spec {env env' : Env} {stmts : List PStmt} {s s' : Symbols}
    {ids : List (Option SymbolId)} (ran : hoist env stmts s = .ok ((env', ids), s')) :
    HoistedAll env env' s s' stmts ids := by
  unfold hoist at ran
  obtain ⟨⟨env₁, recordIds⟩, s₁, ranNames, ran⟩ := bind_eq_ok.mp ran
  obtain ⟨_, s₂, ranFields, ranFunctions⟩ := bind_eq_ok.mp ran
  have records := recordNames_spec ranNames
  obtain ⟨length, ext, each, same, fresh, named, types⟩ := functions_spec ranFunctions
  have stmtsEq : (stmts.zip recordIds).map Prod.fst = stmts :=
    List.map_fst_zip (Nat.le_of_eq records.length.symm)
  rw [stmtsEq] at each same fresh named
  have sameTypes (name : String) : env₁.type? name = env'.type? name := by
    rw [Env.type?, Env.type?, Env.layers, Env.layers, List.findSome?_cons, List.findSome?_cons, types,
      named.outer]
  have fields := allFields_spec ranFields sameTypes records.each records.fresh.nodup
  have below (id : SymbolId) (bound : id < s.size) : s₂.get id = s.get id := by
    rw [← records.ext.same id bound, Symbols.get, Symbols.get, Array.getD_eq_getD_getElem?,
      Array.getD_eq_getD_getElem?, fields.same id (Nat.lt_of_lt_of_le bound records.ext.more)]
    exact fun listed => Nat.not_lt_of_le (records.fresh.mem listed).1 bound
  have more := Nat.le_trans records.ext.more fields.more
  have owned := each env' sameTypes fields.each
  refine ⟨?_, ⟨Nat.le_trans more ext.more, fun id bound => ?_⟩, owned, ?_, ?_, ?_,
    same ▸ records.newTypes⟩
  · rw [length, List.length_zip, records.length, Nat.min_self]
  · rw [ext.same id (Nat.lt_of_lt_of_le bound more), below id bound]
  · have members : ∀ id ∈ ((stmts.zip recordIds).filterMap recordHere?).map Prod.snd,
        s₂.members id = s'.members id := fun id listed =>
      (ext.members (Nat.lt_of_lt_of_le (records.fresh.mem listed).2 fields.more)).symm
    have freshFields := fields.fresh
    rw [List.flatMap, List.map_congr_left members, ← List.flatMap] at freshFields
    have whole := records.fresh.append (freshFields.append fresh fields.more ext.more)
      records.ext.more (Nat.le_trans fields.more ext.more)
    rw [← same] at whole
    exact whole.perm (hoistedSymbols_perm owned)
  · rw [same]
    exact records.named.trans named
  · rw [types, records.types, same]

end Lexical

end LetChain
