import Mathlib.Data.List.Forall2
import LetChain.Proofs.Syntax.Carried
import LetChain.Typing.Resolve

/-! Checking depends neither on places nor on what names are like. A tree that is written in other
words, with different names for different ones, gets the same decorations in those words, or the same
error. -/

namespace LetChain

mutual

def Ty.carry (w : Wording) : Ty → Ty
  | .seqOf args => .seqOf (Ty.carryAll w args)
  | .record symbol name => .record symbol (w.name name)
  | other => other

def Ty.carryAll (w : Wording) : List Ty → List Ty
  | [] => []
  | first :: rest => first.carry w :: Ty.carryAll w rest

end

def Wording.typed (w : Wording) : Carry .typed := ⟨w, Ty.carry w, Option.map (Ty.carry w)⟩

def BindError.carry (w : Wording) : BindError → BindError
  | undefinedName name => undefinedName (w.name name)
  | undefinedType name => undefinedType (w.name name)
  | wrongKind name expected actual => wrongKind (w.name name) expected actual
  | duplicate name => duplicate (w.name name)
  | genericArity name expected actual => genericArity (w.name name) expected actual
  | arity name expected actual => arity (w.name name) expected actual
  | undefinedField record field => undefinedField (w.name record) (w.name field)
  | captured name => captured (w.name name)
  | tooMany what => tooMany what

def TypeError.carry (w : Wording) : TypeError → TypeError
  | operands op lhs rhs => operands op (lhs.carry w) (rhs.carry w)
  | argument name position expected actual =>
    argument (w.name name) position (expected.carry w) (actual.carry w)
  | field record name expected actual =>
    field (w.name record) (w.name name) (expected.carry w) (actual.carry w)
  | condition actual => condition (actual.carry w)
  | branches yes no => branches (yes.carry w) (no.carry w)
  | notASequence actual => notASequence (actual.carry w)
  | element declared actual => element (declared.carry w) (actual.carry w)
  | rangeBound actual => rangeBound (actual.carry w)
  | letBody name expected actual => letBody (w.name name) (expected.carry w) (actual.carry w)
  | returns name expected actual => returns (w.name name) (expected.carry w) (actual.carry w)
  | missingValue => missingValue
  | notARecord actual => notARecord (actual.carry w)
  | misplacedSelfAssignment => misplacedSelfAssignment

def CompileError.carry (w : Wording) : CompileError → CompileError
  | parse error => parse ⟨w.place error.span, error.value⟩
  | bind error => bind ⟨w.place error.span, error.value.carry w⟩
  | type error => type ⟨w.place error.span, error.value.carry w⟩
  | lower error => lower error

def SymbolKind.carry (w : Wording) : SymbolKind → SymbolKind
  | function params returns scope => function params (returns.carry w) scope
  | other => other

def Symbol.carry (w : Wording) (symbol : Symbol) : Symbol :=
  ⟨w.name symbol.name, symbol.ty.carry w, symbol.kind.carry w, w.place symbol.span, symbol.owner⟩

def Symbols.carry (w : Wording) (symbols : Symbols) : Symbols := symbols.map (Symbol.carry w)

def Resolved.carry (w : Wording) (resolved : Resolved) : Resolved :=
  ⟨resolved.module.carry w.typed, resolved.symbols.carry w⟩

/-- Different names stay different, and no name becomes one. -/
structure Wording.Lawful (w : Wording) : Prop where
  blank : w.name "" = ""
  injective : ∀ {a b}, w.name a = w.name b → a = b

variable {w : Wording}

theorem Wording.Lawful.name_inj (laws : w.Lawful) {a b : String} : w.name a = w.name b ↔ a = b :=
  ⟨laws.injective, congrArg w.name⟩

/-! ### Types -/

namespace Ty

theorem carryAll_eq (types : List Ty) : carryAll w types = types.map (carry w) := by
  induction types with
  | nil => rfl
  | cons first rest ih => rw [carryAll, ih, List.map_cons]

mutual

theorem eq_of_carry (laws : w.Lawful) : ∀ a b : Ty, a.carry w = b.carry w → a = b
  | .seqOf args, b, same => by
    cases b with
    | seqOf args' =>
      simp only [carry, seqOf.injEq] at same
      rw [eq_of_carryAll laws args args' same]
    | _ => simp [carry] at same
  | .record symbol name, b, same => by
    cases b with
    | record symbol' name' =>
      simp only [carry, record.injEq] at same
      rw [same.1, laws.injective same.2]
    | _ => simp [carry] at same
  | .number, b, same | .string, b, same | .boolean, b, same | .function, b, same | .seq, b, same => by
    cases b <;> simp_all [carry]

theorem eq_of_carryAll (laws : w.Lawful) : ∀ as bs : List Ty, carryAll w as = carryAll w bs → as = bs
  | [], bs, same => by cases bs <;> simp_all [carryAll]
  | a :: as, bs, same => by
    cases bs with
    | nil => simp [carryAll] at same
    | cons b bs =>
      simp only [carryAll, List.cons.injEq] at same
      rw [eq_of_carry laws a b same.1, eq_of_carryAll laws as bs same.2]

end

theorem carry_inj (laws : w.Lawful) {a b : Ty} : a.carry w = b.carry w ↔ a = b :=
  ⟨eq_of_carry laws a b, congrArg _⟩

theorem carry_eq_number {ty : Ty} : ty.carry w = .number ↔ ty = .number := by
  cases ty <;> simp [carry]

theorem carry_eq_string {ty : Ty} : ty.carry w = .string ↔ ty = .string := by
  cases ty <;> simp [carry]

theorem carry_eq_boolean {ty : Ty} : ty.carry w = .boolean ↔ ty = .boolean := by
  cases ty <;> simp [carry]

theorem element?_carry (ty : Ty) : (ty.carry w).element? = ty.element?.map (carry w) := by
  cases ty with
  | seqOf args => cases args <;> rfl
  | _ => rfl

end Ty

/-! ### Scopes -/

structure Scope.Alike (w : Wording) (a b : Scope) : Prop where
  parent : b.parent = a.parent
  names : ∀ name, b.names[w.name name]? = a.names[name]?
  types : ∀ name, b.types[w.name name]? = a.types[name]?.map (Ty.carry w)

theorem Scope.Alike.bare (parent : Option ScopeId) : Alike w ⟨parent, ∅, ∅⟩ ⟨parent, ∅, ∅⟩ :=
  ⟨rfl, by simp, by simp⟩

/-- The same scopes, in which names in other words mean the same. -/
structure Scopes.Alike (w : Wording) (a b : Scopes) : Prop where
  laws : w.Lawful
  current : b.current = a.current
  size : b.scopes.size = a.scopes.size
  each : ∀ {id : ScopeId} {scope scope' : Scope}, a.scopes[id]? = some scope →
    b.scopes[id]? = some scope' → scope.Alike w scope'

namespace Scopes.Alike

variable {a b : Scopes} (alike : Alike w a b)

include alike

theorem at_id (id : ScopeId) : (a.scopes[id]? = none ∧ b.scopes[id]? = none) ∨
    ∃ scope scope', a.scopes[id]? = some scope ∧ b.scopes[id]? = some scope' ∧
      scope.Alike w scope' := by
  rcases Nat.lt_or_ge id a.scopes.size with low | high
  · have here := Array.getElem?_eq_getElem low
    have there := Array.getElem?_eq_getElem (alike.size.symm ▸ low : id < b.scopes.size)
    exact .inr ⟨_, _, here, there, alike.each here there⟩
  · exact .inl ⟨Array.getElem?_eq_none high, Array.getElem?_eq_none (alike.size.symm ▸ high)⟩

theorem own? (name : String) : b.own? (w.name name) = a.own? name := by
  rw [Scopes.own?, Scopes.own?, alike.current]
  rcases alike.at_id a.current with ⟨here, there⟩ | ⟨scope, scope', here, there, same⟩
  · rw [here, there]
    rfl
  · rw [here, there]
    exact same.names name

theorem ownType? (name : String) :
    b.ownType? (w.name name) = (a.ownType? name).map (Ty.carry w) := by
  rw [Scopes.ownType?, Scopes.ownType?, alike.current]
  rcases alike.at_id a.current with ⟨here, there⟩ | ⟨scope, scope', here, there, same⟩
  · rw [here, there]
    rfl
  · rw [here, there]
    exact same.types name

theorem searchFrom? {α β : Type} {find : Scope → Option α} {find' : Scope → Option β} {g : α → β}
    (found : ∀ {scope scope' : Scope}, scope.Alike w scope' → find' scope' = (find scope).map g)
    (id : ScopeId) :
    Scopes.searchFrom? b.scopes find' id = (Scopes.searchFrom? a.scopes find id).map g := by
  induction id using Nat.strongRecOn with
  | ind id ih =>
    rw [Scopes.searchFrom?, Scopes.searchFrom?]
    rcases alike.at_id id with ⟨here, there⟩ | ⟨scope, scope', here, there, same⟩
    · rw [here, there]
      rfl
    · rw [here, there]
      dsimp only
      rw [found same, same.parent]
      cases find scope with
      | some hit => rfl
      | none =>
        cases scope.parent with
        | none => rfl
        | some parent =>
          dsimp only [Option.map_none]
          split
          · exact ih parent ‹_›
          · rfl

theorem lookup? (name : String) : b.lookup? (w.name name) = a.lookup? name := by
  rw [Scopes.lookup?, Scopes.lookup?, alike.current, alike.searchFrom? (g := id), Option.map_id]
  · rfl
  · intro scope scope' same
    rw [same.names, Option.map_id]
    rfl

theorem lookupType? (name : String) :
    b.lookupType? (w.name name) = (a.lookupType? name).map (Ty.carry w) := by
  rw [Scopes.lookupType?, Scopes.lookupType?, alike.current]
  exact alike.searchFrom? (fun same => same.types name) a.current

theorem modify {f g : Scope → Scope}
    (same : ∀ {scope scope' : Scope}, scope.Alike w scope' → (f scope).Alike w (g scope')) :
    Alike w ⟨a.scopes.modify a.current f, a.current⟩ ⟨b.scopes.modify b.current g, b.current⟩ := by
  refine ⟨alike.laws, alike.current, by simpa using alike.size, ?_⟩
  intro id scope scope' here there
  simp only [alike.current, Array.getElem?_modify] at here there
  split at here
  · rw [if_pos ‹_›] at there
    obtain ⟨_, isHere, rfl⟩ := Option.map_eq_some_iff.mp here
    obtain ⟨_, isThere, rfl⟩ := Option.map_eq_some_iff.mp there
    exact same (alike.each isHere isThere)
  · rw [if_neg ‹_›] at there
    exact alike.each here there

theorem addChild : Alike w a.addChild b.addChild := by
  refine ⟨alike.laws, alike.current, by simp [Scopes.addChild, alike.size], ?_⟩
  intro id scope scope' here there
  simp only [Scopes.addChild, Array.getElem?_push, alike.size, alike.current] at here there
  split at here
  · rw [if_pos ‹_›] at there
    obtain rfl := Option.some.inj here
    obtain rfl := Option.some.inj there
    exact .bare _
  · rw [if_neg ‹_›] at there
    exact alike.each here there

theorem enter (scope : ScopeId) : Alike w (a.enter scope) (b.enter scope) :=
  { alike with current := rfl }

theorem push : Alike w a.push b.push := by
  have entered := alike.addChild.enter a.scopes.size
  rw [Scopes.push, Scopes.push, alike.size]
  exact entered

theorem pop : Alike w a.pop b.pop := by
  rw [Scopes.pop, Scopes.pop, alike.current]
  rcases alike.at_id a.current with ⟨here, there⟩ | ⟨scope, scope', here, there, same⟩
  · rw [here, there]
    exact alike
  · rw [here, there, Option.bind_some, Option.bind_some, same.parent]
    cases scope.parent with
    | none => exact alike
    | some parent => exact { alike with current := rfl }

end Scopes.Alike

/-! ### Tables of symbols -/

namespace Symbols

variable (symbols : Symbols) (id : SymbolId)

theorem size_carry : (symbols.carry w).size = symbols.size := by
  rw [carry, Array.size_map]

theorem push_carry (symbol : Symbol) :
    carry w (symbols.push symbol) = (symbols.carry w).push (symbol.carry w) := by
  rw [carry, carry, Array.map_push]

/-- A symbol that is not there has no name. -/
theorem get_carry (laws : w.Lawful) : ((symbols.carry w).get id).name = w.name (symbols.get id).name ∧
    ((symbols.carry w).get id).ty = (symbols.get id).ty.carry w ∧
    ((symbols.carry w).get id).kind = (symbols.get id).kind.carry w ∧
    ((symbols.carry w).get id).owner = (symbols.get id).owner := by
  simp only [get, carry, Array.getD_eq_getD_getElem?, Array.getElem?_map]
  cases symbols[id]? with
  | none => exact ⟨laws.blank.symm, rfl, rfl, rfl⟩
  | some symbol => exact ⟨rfl, rfl, rfl, rfl⟩

theorem fields_carry (laws : w.Lawful) : (symbols.carry w).fields id = symbols.fields id := by
  rw [fields, fields, Symbol.fields, Symbol.fields, (symbols.get_carry id laws).2.2.1]
  cases (symbols.get id).kind <;> rfl

theorem setKind_carry (kind : SymbolKind) :
    (symbols.setKind id kind).carry w = (symbols.carry w).setKind id (kind.carry w) := by
  apply Array.ext_getElem?
  intro other
  simp only [carry, setKind, Array.getElem?_map, Array.getElem?_modify]
  split <;> cases symbols[other]? <;> rfl

theorem fieldNamed?_carry (laws : w.Lawful) (name : String) :
    Resolve.fieldNamed? (symbols.carry w) id (w.name name) =
      Resolve.fieldNamed? symbols id name := by
  rw [Resolve.fieldNamed?, Resolve.fieldNamed?, symbols.fields_carry id laws]
  congr 1
  funext field
  rw [(symbols.get_carry field laws).1, decide_eq_decide]
  exact laws.name_inj

end Symbols

theorem SymbolKind.role_carry (kind : SymbolKind) : (kind.carry w).role = kind.role := by
  cases kind <;> rfl

structure Bindings.Alike (w : Wording) (s s' : Bindings) : Prop where
  symbols : s'.symbols = s.symbols.carry w
  scopes : s.scopes.Alike w s'.scopes
  owner : s'.owner = s.owner

theorem Bindings.Alike.laws {s s' : Bindings} (alike : s.Alike w s') : w.Lawful := alike.scopes.laws

/-! ### Runs -/

namespace Resolve

variable {α β γ δ : Type} {g : α → β} {h : γ → δ}

/-- The second outcome is the first one in other words. -/
inductive Accord (w : Wording) (g : α → β) :
    Except CompileError (α × Bindings) → Except CompileError (β × Bindings) → Prop
  | fails (error : CompileError) : Accord w g (.error error) (.error (error.carry w))
  | succeeds (a : α) {s s' : Bindings} (alike : s.Alike w s') :
      Accord w g (.ok (a, s)) (.ok (g a, s'))

def Moves (w : Wording) (g : α → β) (m : Resolve α) (m' : Resolve β) : Prop :=
  ∀ s s', s.Alike w s' → Accord w g (m s) (m' s')

namespace Moves

theorem pure {a : α} {b : β} (same : b = g a) : Moves w g (Pure.pure a) (Pure.pure b) := by
  subst same
  exact fun _ _ alike => .succeeds a alike

theorem bind {m : Resolve α} {m' : Resolve β} {next : α → Resolve γ} {next' : β → Resolve δ}
    (first : Moves w g m m') (rest : ∀ a, Moves w h (next a) (next' (g a))) :
    Moves w h (m >>= next) (m' >>= next') := by
  intro s s' alike
  have outcome := first s s' alike
  change Accord w h (m s >>= fun found => next found.1 found.2)
    (m' s' >>= fun found => next' found.1 found.2)
  generalize m s = here, m' s' = there at outcome
  cases outcome with
  | fails error => exact .fails error
  | succeeds a later => exact rest a _ _ later

theorem lawful {m : Resolve α} {m' : Resolve β} (rest : w.Lawful → Moves w g m m') :
    Moves w g m m' :=
  fun s s' alike => rest alike.laws s s' alike

theorem fail {error : CompileError} : Moves w g (throw error) (throw (error.carry w)) :=
  fun _ _ _ => .fails error

theorem failType {span span' : Span} {error error' : TypeError} (place : span' = w.place span)
    (same : error' = error.carry w) :
    Moves w g (failType span error) (failType span' error') := by
  subst place same
  exact fun _ _ _ => .fails _

theorem ite {cond cond' : Prop} [Decidable cond] [Decidable cond'] {yes no : Resolve α}
    {yes' no' : Resolve β} (same : cond' ↔ cond) (ifYes : Moves w g yes yes')
    (ifNo : Moves w g no no') :
    Moves w g (if cond then yes else no) (if cond' then yes' else no') := by
  by_cases holds : cond
  · simpa only [if_pos holds, if_pos (same.mpr holds)] using ifYes
  · simpa only [if_neg holds, if_neg (fun other => holds (same.mp other))] using ifNo

theorem get_bind {next : Bindings → Resolve γ} {next' : Bindings → Resolve δ}
    (rest : ∀ s s', s.Alike w s' → Moves w h (next s) (next' s')) :
    Moves w h (get >>= next) (get >>= next') :=
  fun s s' alike => rest s s' alike s s' alike

theorem addSymbol (symbol : Symbol) :
    Moves w id (addSymbol symbol) (addSymbol (symbol.carry w)) := by
  intro s s' alike
  have added : Bindings.Alike w { s with symbols := s.symbols.push symbol }
      { s' with symbols := s'.symbols.push (symbol.carry w) } :=
    { alike with symbols := by rw [alike.symbols, Symbols.push_carry] }
  have size : s'.symbols.size = s.symbols.size := by rw [alike.symbols, Symbols.size_carry]
  change Accord w id _ (.ok (s'.symbols.size, _))
  rw [size]
  exact .succeeds _ added

theorem setKind (sym : SymbolId) (kind : SymbolKind) :
    Moves w id (setKind sym kind) (setKind sym (kind.carry w)) := by
  intro s s' alike
  have symbols : s'.symbols.setKind sym (kind.carry w) = (s.symbols.setKind sym kind).carry w := by
    rw [alike.symbols, Symbols.setKind_carry]
  exact .succeeds () { alike with symbols }

theorem modifyScopes {change : Scopes → Scopes}
    (same : ∀ {a b : Scopes}, a.Alike w b → (change a).Alike w (change b)) :
    Moves w id (modifyScopes change) (modifyScopes change) :=
  fun _ _ alike => .succeeds () { alike with scopes := same alike.scopes }

theorem addScope : Moves w id addScope addScope := by
  intro s s' alike
  change Accord w id _ (.ok (s'.scopes.scopes.size, _))
  rw [alike.scopes.size]
  exact .succeeds _ { alike with scopes := alike.scopes.addChild }

theorem enterScope (scope : ScopeId) : Moves w id (enterScope scope) (enterScope scope) := by
  refine get_bind fun s s' alike => ?_
  refine (modifyScopes fun same => same.enter scope).bind fun _ => ?_
  rw [alike.scopes.current]
  exact pure rfl

theorem setOwner (owner : Option SymbolId) : Moves w id (setOwner owner) (setOwner owner) :=
  fun _ _ alike => .succeeds () { alike with owner := rfl }

theorem declare (ident : Ident) (sym : SymbolId) :
    Moves w id (declare ident sym) (declare (ident.carry w) sym) := by
  intro s s' alike
  have own := alike.scopes.own? ident.text
  simp only [Resolve.declare, Scopes.declare, Ident.carry, own]
  cases s.scopes.own? ident.text with
  | some other => exact .fails _
  | none =>
    refine .succeeds () { alike with scopes := alike.scopes.modify fun same => ?_ }
    refine { same with names := fun name => ?_ }
    simp only [Std.HashMap.getElem?_insert, beq_iff_eq, alike.laws.name_inj, same.names]

theorem declareType (ident : Ident) (ty : Ty) :
    Moves w id (declareType ident ty) (declareType (ident.carry w) (ty.carry w)) := by
  intro s s' alike
  have own := alike.scopes.ownType? ident.text
  simp only [Resolve.declareType, Scopes.declareType?, Ident.carry, own]
  cases s.scopes.ownType? ident.text with
  | some other => exact .fails _
  | none =>
    refine .succeeds () { alike with scopes := alike.scopes.modify fun same => ?_ }
    refine { same with types := fun name => ?_ }
    simp only [Std.HashMap.getElem?_insert, beq_iff_eq, alike.laws.name_inj, same.types]
    split <;> rfl

theorem declareLocal (ident : Ident) (ty : Ty) :
    Moves w id (declareLocal ident ty) (declareLocal (ident.carry w) (ty.carry w)) := by
  refine get_bind fun s s' alike => ?_
  rw [alike.owner]
  refine (addSymbol ⟨ident.text, ty, .localVar, ident.span, s.owner⟩).bind fun sym => ?_
  exact (declare ident sym).bind fun _ => pure rfl

end Moves

/-! ### Types as they are written -/

theorem typeArity_carry (ty : Ty) : typeArity (ty.carry w) = typeArity ty := by
  cases ty <;> rfl

mutual

theorem typeOf_carry {a b : Scopes} (alike : a.Alike w b) : ∀ type : TypeRef,
    typeOf b (type.carry w) =
      ((typeOf a type).map (Ty.carry w)).mapError (CompileError.carry w)
  | ⟨name, args, span⟩ => by
    rw [TypeRef.carry, typeOf, typeOf, Ident.carry, alike.lookupType?, typesOf_carry alike args,
      TypeRef.carryAll_eq, List.length_map]
    cases a.lookupType? name.text with
    | none => rfl
    | some ty =>
      dsimp only [Option.map_some]
      rw [typeArity_carry]
      split
      · rfl
      · cases ty with
        | seq =>
          cases typesOf a args with
          | error error => rfl
          | ok types =>
            change Except.ok (Ty.seqOf (types.map (Ty.carry w))) = .ok (Ty.carry w (.seqOf types))
            rw [Ty.carry, Ty.carryAll_eq]
        | _ => rfl

theorem typesOf_carry {a b : Scopes} (alike : a.Alike w b) : ∀ types : List TypeRef,
    typesOf b (TypeRef.carryAll w types) =
      ((typesOf a types).map (List.map (Ty.carry w))).mapError (CompileError.carry w)
  | [] => rfl
  | first :: rest => by
    rw [TypeRef.carryAll, typesOf, typesOf, typeOf_carry alike first, typesOf_carry alike rest]
    cases typeOf a first with
    | error error => rfl
    | ok ty => cases typesOf a rest <;> rfl

end

namespace Moves

theorem resolveType (type : TypeRef) :
    Moves w (Ty.carry w) (resolveType type) (resolveType (type.carry w)) := by
  refine get_bind fun s s' alike t t' later => ?_
  change Accord w _ (typeOf s.scopes type >>= fun ty => Pure.pure (ty, t))
    (typeOf s'.scopes (type.carry w) >>= fun ty => Pure.pure (ty, t'))
  rw [typeOf_carry alike.scopes]
  cases typeOf s.scopes type with
  | error error => exact .fails error
  | ok ty => exact .succeeds ty later

/-! ### Declarations -/

theorem checkIndex (index : Nat) (ident : Ident) (what : String) :
    Moves w id (checkIndex index ident what) (checkIndex index (ident.carry w) what) :=
  ite Iff.rfl (pure rfl) fail

theorem declareRecordName (name : Ident) (span : Span) :
    Moves w id (declareRecordName name span) (declareRecordName (name.carry w) (w.place span)) := by
  refine get_bind fun s s' alike => ?_
  rw [alike.symbols, Symbols.size_carry]
  refine (addSymbol ⟨name.text, .record s.symbols.size name.text, .record [], span, none⟩).bind
    fun _ => ?_
  refine (declare name _).bind fun _ => ?_
  exact (declareType name (.record s.symbols.size name.text)).bind fun _ => pure rfl

theorem declareFields (record : SymbolId) (fields : List (Binding .parsed)) :
    ∀ (index : Nat) {seen seen' : Std.HashSet String} (ids : Array SymbolId),
    (∀ name, seen'.contains (w.name name) = seen.contains name) →
    Moves w id (declareFields record index seen ids fields)
      (declareFields record index seen' ids (fields.map (Binding.carry w))) := by
  induction fields with
  | nil => exact fun _ _ _ _ _ => pure rfl
  | cons field rest ih =>
    intro index seen seen' ids known
    rw [List.map_cons, Resolve.declareFields, Resolve.declareFields]
    refine lawful fun laws => ?_
    refine ite (by rw [← known]; rfl) fail ?_
    refine (resolveType field.type).bind fun ty => ?_
    refine (checkIndex index field.name "fields").bind fun _ => ?_
    refine (addSymbol ⟨field.name.text, ty, .field record index, field.name.span, none⟩).bind
      fun sym => ih _ _ fun name => ?_
    simp only [Std.HashSet.contains_insert, Binding.carry, Ident.carry, known]
    congr 1
    rw [Bool.eq_iff_iff, beq_iff_eq, beq_iff_eq, laws.name_inj]

theorem resolveTypes (params : List (Binding .parsed)) : ∀ types : Array Ty,
    Moves w (List.map (Ty.carry w)) (resolveTypes types params)
      (resolveTypes (types.map (Ty.carry w)) (params.map (Binding.carry w))) := by
  induction params with
  | nil => exact fun _ => pure (by simp)
  | cons first rest ih =>
    intro types
    rw [List.map_cons, Resolve.resolveTypes, Resolve.resolveTypes]
    refine (resolveType first.type).bind fun ty => ?_
    rw [← Array.map_push]
    exact ih _

theorem declareParams (owner : SymbolId) (params : List (Binding .parsed × Ty)) :
    ∀ (index : Nat) (ids : Array SymbolId),
    Moves w id (declareParams owner index ids params)
      (declareParams owner index ids (params.map (Prod.map (Binding.carry w) (Ty.carry w)))) := by
  induction params with
  | nil => exact fun _ _ => pure rfl
  | cons param rest ih =>
    obtain ⟨param, ty⟩ := param
    intro index ids
    rw [List.map_cons, Resolve.declareParams, Resolve.declareParams]
    refine (checkIndex index param.name "parameters").bind fun _ => ?_
    refine (addSymbol ⟨param.name.text, ty, .param index, param.name.span, some owner⟩).bind
      fun sym => ?_
    exact (declare param.name sym).bind fun _ => ih _ _

theorem declareFunction (name : Ident) (params : List (Binding .parsed)) (returns : TypeRef)
    (span : Span) : Moves w id (declareFunction name params returns span)
      (declareFunction (name.carry w) (params.map (Binding.carry w)) (returns.carry w)
        (w.place span)) := by
  refine (resolveType returns).bind fun returnType => ?_
  refine addScope.bind fun scope => ?_
  refine (addSymbol ⟨name.text, .function, .function [] returnType scope, span, none⟩).bind
    fun sym => ?_
  refine (declare name _).bind fun _ => ?_
  have resolved := resolveTypes (w := w) params #[]
  rw [Array.map_empty] at resolved
  refine resolved.bind fun types => ?_
  refine (enterScope scope).bind fun previous => ?_
  have declared := declareParams (w := w) sym (params.zip types) 0 #[]
  rw [← List.zip_map] at declared
  refine declared.bind fun ids => ?_
  refine (enterScope previous).bind fun _ => ?_
  exact (setKind sym (.function ids returnType scope)).bind fun _ => pure rfl

theorem declareRecordNames (stmts : List PStmt) : ∀ ids : Array (Option SymbolId),
    Moves w id (declareRecordNames ids stmts)
      (declareRecordNames ids (stmts.map (Stmt.carry w.parsed))) := by
  induction stmts with
  | nil => exact fun _ => pure rfl
  | cons first rest ih =>
    intro ids
    cases first with
    | record name fields span sym =>
      exact (declareRecordName name span).bind fun _ => ih _
    | _ => exact ih _

theorem declareAllFields (stmts : List (PStmt × Option SymbolId)) :
    Moves w id (declareAllFields stmts)
      (declareAllFields (stmts.map (Prod.map (Stmt.carry w.parsed) id))) := by
  induction stmts with
  | nil => exact pure rfl
  | cons first rest ih =>
    obtain ⟨stmt, sym⟩ := first
    cases stmt with
    | record name fields span _ =>
      cases sym with
      | none => exact ih
      | some sym =>
        refine (declareFields sym fields 0 #[] (by simp)).bind fun ids => ?_
        exact (setKind sym (.record ids)).bind fun _ => ih
    | _ => exact ih

theorem declareFunctions (stmts : List (PStmt × Option SymbolId)) :
    ∀ ids : Array (Option SymbolId), Moves w id (declareFunctions ids stmts)
      (declareFunctions ids (stmts.map (Prod.map (Stmt.carry w.parsed) id))) := by
  induction stmts with
  | nil => exact fun _ => pure rfl
  | cons first rest ih =>
    obtain ⟨stmt, sym⟩ := first
    intro ids
    cases stmt with
    | func name params returns body span _ =>
      exact (declareFunction name params returns span).bind fun _ => ih _
    | _ => exact ih _

theorem hoist (stmts : List PStmt) :
    Moves w id (hoist stmts) (hoist (stmts.map (Stmt.carry w.parsed))) := by
  refine (declareRecordNames stmts #[]).bind fun records => ?_
  rw [List.zip_map_left]
  exact (declareAllFields _).bind fun _ => declareFunctions _ #[]

theorem symbol_bind {sym : SymbolId} {next : Symbol → Resolve γ} {next' : Symbol → Resolve δ}
    (rest : ∀ found found' : Symbol, found'.ty = found.ty.carry w →
      found'.kind = found.kind.carry w → Moves w h (next found) (next' found')) :
    Moves w h (symbol sym >>= next) (symbol sym >>= next') := by
  intro s s' alike
  change Accord w h (next (s.symbols.get sym) s) (next' (s'.symbols.get sym) s')
  rw [alike.symbols]
  obtain ⟨-, ty, kind, -⟩ := s.symbols.get_carry sym alike.laws
  exact rest _ _ ty kind s s' alike

/-! ### Trees -/

theorem blockValue (body : Block .typed) :
    Moves w (Ty.carry w) (blockValue body) (blockValue (body.carry w.typed)) := by
  unfold Resolve.blockValue
  rw [Block.ty_carry]
  cases body.ty with
  | none => exact failType body.span_carry rfl
  | some ty => exact pure rfl

theorem resolveValue (ident : Ident) :
    Moves w id (resolveValue ident) (resolveValue (ident.carry w)) := by
  refine get_bind fun s s' alike => ?_
  dsimp only [Ident.carry]
  rw [alike.scopes.lookup?, alike.symbols, alike.owner]
  cases s.scopes.lookup? ident.text with
  | none => exact fail
  | some sym =>
    obtain ⟨-, -, kind, owner⟩ := s.symbols.get_carry sym alike.laws
    dsimp only
    rw [kind, owner]
    cases (s.symbols.get sym).kind with
    | param index => exact ite Iff.rfl fail (pure rfl)
    | localVar => exact ite Iff.rfl fail (pure rfl)
    | _ => exact fail

theorem resolveRole (ident : Ident) (role : String) :
    Moves w id (resolveRole ident role) (resolveRole (ident.carry w) role) := by
  refine get_bind fun s s' alike => ?_
  dsimp only [Ident.carry]
  rw [alike.scopes.lookup?, alike.symbols]
  cases s.scopes.lookup? ident.text with
  | none => exact fail
  | some sym =>
    dsimp only
    rw [(s.symbols.get_carry sym alike.laws).2.2.1, SymbolKind.role_carry]
    exact ite Iff.rfl (pure rfl) fail

theorem checkArity (span : Span) (name : Ident) (expected actual : Nat) :
    Moves w id (checkArity span name expected actual)
      (checkArity (w.place span) (name.carry w) expected actual) :=
  ite Iff.rfl (pure rfl) fail

theorem checkLetBody (name : Ident) (declared : Ty) (body : TExpr) :
    Moves w id (checkLetBody name declared body)
      (checkLetBody (name.carry w) (declared.carry w) (body.carry w.typed)) := by
  refine lawful fun laws => ?_
  unfold Resolve.checkLetBody
  rw [Expr.ty_carry]
  exact ite (Ty.carry_inj laws) (pure rfl) (failType body.span_carry rfl)

theorem checkCondition (cond : TExpr) :
    Moves w id (checkCondition cond) (checkCondition (cond.carry w.typed)) := by
  unfold Resolve.checkCondition
  rw [Expr.ty_carry]
  exact ite Ty.carry_eq_boolean (pure rfl) (failType cond.span_carry rfl)

theorem checkBound (bound : TExpr) :
    Moves w id (checkBound bound) (checkBound (bound.carry w.typed)) := by
  unfold Resolve.checkBound
  rw [Expr.ty_carry]
  exact ite Ty.carry_eq_number (pure rfl) (failType bound.span_carry rfl)

theorem checkElement (source : TExpr) (elementType : TypeRef) (declared : Ty) :
    Moves w id (checkElement source elementType declared)
      (checkElement (source.carry w.typed) (elementType.carry w) (declared.carry w)) := by
  refine lawful fun laws => ?_
  unfold Resolve.checkElement
  rw [Expr.ty_carry, show w.typed.ty = Ty.carry w from rfl, Ty.element?_carry]
  cases source.ty.element? with
  | none => exact failType source.span_carry rfl
  | some actual =>
    exact ite (Ty.carry_inj laws) (pure rfl) (failType elementType.span_carry rfl)

end Moves

theorem resultType?_carry (laws : w.Lawful) (op : Operator) (lhs rhs : Ty) :
    resultType? op (lhs.carry w) (rhs.carry w) = (resultType? op lhs rhs).map (Ty.carry w) := by
  cases op <;>
    simp only [resultType?, Ty.carry_eq_number, Ty.carry_eq_string, Ty.carry_eq_boolean,
      Ty.carry_inj laws] <;>
    split <;> rfl

theorem bindAll_carry (names : List (Binding .parsed)) (ids : List SymbolId) :
    bindAll (names.map (Binding.carry w)) ids = (bindAll names ids).map (Binding.carry w) := by
  simp only [bindAll, List.zip_map_left, List.map_map]
  rfl

theorem lastType?_carry (stmts : List TStmt) :
    lastType? (stmts.map (Stmt.carry w.typed)) = (lastType? stmts).map (Ty.carry w) := by
  unfold lastType?
  rw [List.getLast?_map]
  cases stmts.getLast? with
  | none => rfl
  | some last =>
    cases last with
    | expr value => exact congrArg some value.ty_carry
    | _ => rfl

/-- What is expected of an argument, in other words. -/
def Expected.Alike (w : Wording) (x x' : Expected) : Prop :=
  x'.1 = x.1.carry w ∧ ∀ ty, x'.2 (ty.carry w) = (x.2 ty).carry w

theorem expectedArgs_alike (laws : w.Lawful) (symbols : Symbols) (name : String)
    (params : List SymbolId) : List.Forall₂ (Expected.Alike w) (expectedArgs symbols name params)
      (expectedArgs (symbols.carry w) (w.name name) params) := by
  refine List.forall₂_map_left_iff.mpr (List.forall₂_map_right_iff.mpr (List.forall₂_same.mpr ?_))
  intro param _
  have ty := (symbols.get_carry param.1 laws).2.1
  refine ⟨ty, fun actual => ?_⟩
  change TypeError.argument _ _ ((symbols.carry w).get param.1).ty _ = _
  rw [ty]
  rfl

theorem expectedFields_alike (laws : w.Lawful) (symbols : Symbols) (name : String)
    (fields : List SymbolId) : List.Forall₂ (Expected.Alike w) (expectedFields symbols name fields)
      (expectedFields (symbols.carry w) (w.name name) fields) := by
  refine List.forall₂_map_left_iff.mpr (List.forall₂_map_right_iff.mpr (List.forall₂_same.mpr ?_))
  intro field _
  obtain ⟨isName, ty, -⟩ := symbols.get_carry field laws
  refine ⟨ty, fun actual => ?_⟩
  change TypeError.field _ ((symbols.carry w).get field).name ((symbols.carry w).get field).ty _ = _
  rw [ty, isName]
  rfl

namespace Moves

-- One case per constructor: the same steps, with every place and name that they mention carried.
mutual

theorem resolveExpr : ∀ e : PExpr,
    Moves w (Expr.carry w.typed) (resolveExpr e) (resolveExpr (e.carry w.parsed))
  | .number .. | .string .. | .bool .. => pure rfl
  | .named name _ span _ => by
    refine (resolveValue name).bind fun sym => ?_
    exact symbol_bind fun found found' ty _ => pure (by rw [ty]; rfl)
  | .binary op lhs rhs span _ => by
    rw [Expr.carry, Resolve.resolveExpr, Resolve.resolveExpr]
    refine lawful fun laws => ?_
    refine (resolveExpr lhs).bind fun lhs => ?_
    refine (resolveExpr rhs).bind fun rhs => ?_
    rw [Expr.ty_carry, Expr.ty_carry, show w.typed.ty = Ty.carry w from rfl,
      resultType?_carry laws]
    cases resultType? op lhs.ty rhs.ty with
    | none => exact failType rfl rfl
    | some ty => exact pure rfl
  | .range first limit none span _ => by
    rw [Expr.carry, Resolve.resolveExpr, Resolve.resolveExpr]
    refine (resolveExpr first).bind fun first => ?_
    refine (checkBound first).bind fun _ => ?_
    refine (resolveExpr limit).bind fun limit => ?_
    exact (checkBound limit).bind fun _ => pure rfl
  | .range first limit (some step) span _ => by
    rw [Expr.carry, Resolve.resolveExpr, Resolve.resolveExpr]
    refine (resolveExpr first).bind fun first => ?_
    refine (checkBound first).bind fun _ => ?_
    refine (resolveExpr limit).bind fun limit => ?_
    refine (checkBound limit).bind fun _ => ?_
    refine (resolveExpr step).bind fun step => ?_
    exact (checkBound step).bind fun _ => pure rfl
  | .call name args _ span _ => by
    rw [Expr.carry, Resolve.resolveExpr, Resolve.resolveExpr, Expr.carryAll_eq]
    refine (resolveRole name "function").bind fun sym => get_bind fun s s' alike => ?_
    rw [id, alike.symbols, (s.symbols.get_carry sym alike.laws).2.2.1, List.length_map]
    cases (s.symbols.get sym).kind with
    | function params returns scope =>
      refine (checkArity span name _ _).bind fun _ => ?_
      have rest := resolveArgs args #[] (expectedArgs_alike alike.laws s.symbols name.text params)
      rw [Array.map_empty] at rest
      refine rest.bind fun args => pure ?_
      rw [Expr.carry, Expr.carryAll_eq]
      rfl
    | _ => exact fail
  | .construct name args _ span _ => by
    rw [Expr.carry, Resolve.resolveExpr, Resolve.resolveExpr, Expr.carryAll_eq]
    refine (resolveRole name "type").bind fun sym => get_bind fun s s' alike => ?_
    rw [id, alike.symbols, s.symbols.fields_carry sym alike.laws, List.length_map]
    refine (checkArity span name _ _).bind fun _ => ?_
    have rest := resolveArgs args #[]
      (expectedFields_alike alike.laws s.symbols name.text (s.symbols.fields sym))
    rw [Array.map_empty] at rest
    refine rest.bind fun args => symbol_bind fun found found' ty _ => pure ?_
    rw [Expr.carry, Expr.carryAll_eq, ty]
    rfl
  | .member base field _ span _ => by
    rw [Expr.carry, Resolve.resolveExpr, Resolve.resolveExpr]
    refine (resolveExpr base).bind fun base => ?_
    rw [Expr.ty_carry]
    cases base.ty with
    | record record name =>
      refine get_bind fun s s' alike => ?_
      dsimp only [Ident.carry]
      rw [alike.symbols, show w.parsed.name = w.name from rfl,
        s.symbols.fieldNamed?_carry record alike.laws]
      cases fieldNamed? s.symbols record field.text with
      | none => exact fail
      | some sym =>
        dsimp only
        rw [(s.symbols.get_carry sym alike.laws).2.1]
        exact pure rfl
    | _ => exact failType base.span_carry rfl
  | .ifElse cond yes no span _ => by
    rw [Expr.carry, Resolve.resolveExpr, Resolve.resolveExpr]
    refine lawful fun laws => ?_
    refine (resolveExpr cond).bind fun cond => ?_
    refine (checkCondition cond).bind fun _ => ?_
    refine (resolveBlock yes).bind fun yes => ?_
    refine (blockValue yes).bind fun yesType => ?_
    refine (resolveBlock no).bind fun no => ?_
    refine (blockValue no).bind fun noType => ?_
    exact ite (Ty.carry_inj laws) (pure rfl) (failType rfl rfl)
  | .ifOnly .. | .foreach .. => failType rfl rfl
  | .block body _ => by
    refine (resolveBlock body).bind fun body => ?_
    exact (blockValue body).bind fun ty => pure rfl

theorem resolveArgs : ∀ (args : List PExpr) (done : Array TExpr) {expected expected' : List Expected},
    List.Forall₂ (Expected.Alike w) expected expected' →
    Moves w (List.map (Expr.carry w.typed)) (resolveArgs done args expected)
      (resolveArgs (done.map (Expr.carry w.typed)) (args.map (Expr.carry w.parsed)) expected')
  | [], done, _, _, _ => pure (by simp)
  | _ :: _, done, _, _, .nil => pure (by simp)
  | arg :: rest, done, (ty, mismatch) :: _, (ty', mismatch') :: _, .cons here later => by
    rw [List.map_cons, Resolve.resolveArgs, Resolve.resolveArgs]
    refine lawful fun laws => ?_
    refine (resolveExpr arg).bind fun arg => ?_
    rw [Expr.ty_carry, show ty' = ty.carry w from here.1, ← Array.map_push]
    exact ite (Ty.carry_inj laws) (resolveArgs rest (done.push arg) later)
      (failType arg.span_carry (here.2 arg.ty))

theorem resolveChain : ∀ (bodies : List PExpr) (name : Ident) (declared : Ty) (done : Array TExpr),
    Moves w (List.map (Expr.carry w.typed)) (resolveChain name declared done bodies)
      (resolveChain (name.carry w) (declared.carry w) (done.map (Expr.carry w.typed))
        (bodies.map (Expr.carry w.parsed)))
  | [], _, _, done => pure (by simp)
  | body :: rest, name, declared, done => by
    have followed (body : TExpr) : Moves w (List.map (Expr.carry w.typed))
        (do
          Resolve.checkLetBody name declared body
          Resolve.resolveChain name declared (done.push body) rest)
        (do
          Resolve.checkLetBody (name.carry w) (declared.carry w) (body.carry w.typed)
          Resolve.resolveChain (name.carry w) (declared.carry w)
            ((done.map (Expr.carry w.typed)).push (body.carry w.typed))
            (rest.map (Expr.carry w.parsed))) := by
      refine (checkLetBody name declared body).bind fun _ => ?_
      rw [← Array.map_push]
      exact resolveChain rest name declared (done.push body)
    have plain : Moves w (List.map (Expr.carry w.typed))
        (do
          let body ← Resolve.resolveExpr body
          Resolve.checkLetBody name declared body
          Resolve.resolveChain name declared (done.push body) rest)
        (do
          let body ← Resolve.resolveExpr (body.carry w.parsed)
          Resolve.checkLetBody (name.carry w) (declared.carry w) body
          Resolve.resolveChain (name.carry w) (declared.carry w)
            ((done.map (Expr.carry w.typed)).push body) (rest.map (Expr.carry w.parsed))) :=
      (resolveExpr body).bind followed
    rw [List.map_cons]
    cases body with
    | ifOnly cond yes span ty =>
      rw [Expr.carry, Resolve.resolveChain, Resolve.resolveChain]
      refine (resolveExpr cond).bind fun cond => ?_
      refine (checkCondition cond).bind fun _ => ?_
      refine (resolveBlock yes).bind fun yes => ?_
      exact (blockValue yes).bind fun ty => followed (.ifOnly cond yes span ty)
    | «foreach» element elementType source body sym span ty =>
      rw [Expr.carry, Resolve.resolveChain, Resolve.resolveChain]
      refine (resolveType elementType).bind fun elementTy => ?_
      refine (resolveExpr source).bind fun source => ?_
      refine (checkElement source elementType elementTy).bind fun _ => ?_
      refine (modifyScopes Scopes.Alike.push).bind fun _ => ?_
      refine (declareLocal element elementTy).bind fun sym => ?_
      refine (resolveBlock body).bind fun body => ?_
      refine (modifyScopes Scopes.Alike.pop).bind fun _ => ?_
      exact (blockValue body).bind fun ty =>
        followed (.foreach element elementType source body sym span ty)
    | range first limit step span ty => cases step <;> exact plain
    | _ => exact plain

theorem resolveBlock : ∀ body : Block .parsed,
    Moves w (Block.carry w.typed) (resolveBlock body) (resolveBlock (body.carry w.parsed))
  | ⟨stmts, span, _⟩ => by
    rw [Block.carry, Resolve.resolveBlock, Resolve.resolveBlock, Stmt.carryAll_eq]
    refine (modifyScopes Scopes.Alike.push).bind fun _ => ?_
    refine (hoist stmts).bind fun ids => ?_
    have rest := resolveStmts stmts #[] ids
    rw [Array.map_empty] at rest
    refine rest.bind fun stmts => ?_
    refine (modifyScopes Scopes.Alike.pop).bind fun _ => pure ?_
    rw [lastType?_carry, Block.carry, Stmt.carryAll_eq]
    rfl

theorem resolveStmts : ∀ (stmts : List PStmt) (done : Array TStmt) (ids : List (Option SymbolId)),
    Moves w (List.map (Stmt.carry w.typed)) (resolveStmts done stmts ids)
      (resolveStmts (done.map (Stmt.carry w.typed)) (stmts.map (Stmt.carry w.parsed)) ids)
  | [], done, _ => pure (by simp)
  | first :: rest, done, ids => by
    rw [List.map_cons, Resolve.resolveStmts, Resolve.resolveStmts]
    refine (resolveStmt first _).bind fun stmt => ?_
    rw [← Array.map_push]
    exact resolveStmts rest (done.push stmt) ids.tail

theorem resolveStmt : ∀ (stmt : PStmt) (sym : SymbolId),
    Moves w (Stmt.carry w.typed) (resolveStmt sym stmt) (resolveStmt sym (stmt.carry w.parsed))
  | .letIn name type first chained span _, _ => by
    rw [Stmt.carry, Resolve.resolveStmt, Resolve.resolveStmt, Expr.carryAll_eq]
    refine (resolveType type).bind fun declared => ?_
    refine (modifyScopes Scopes.Alike.push).bind fun _ => ?_
    refine (resolveExpr first).bind fun first => ?_
    refine (modifyScopes Scopes.Alike.pop).bind fun _ => ?_
    refine (checkLetBody name declared first).bind fun _ => ?_
    refine (declareLocal name declared).bind fun sym => ?_
    have rest := resolveChain chained name declared #[]
    rw [Array.map_empty] at rest
    refine rest.bind fun chained => pure ?_
    rw [Stmt.carry, Expr.carryAll_eq]
    rfl
  | .func name params returns body span _, sym => by
    rw [Stmt.carry, Resolve.resolveStmt, Resolve.resolveStmt]
    refine lawful fun laws => symbol_bind fun found found' _ kind => ?_
    rw [kind]
    cases found.kind with
    | function ids returnType scope =>
      refine (enterScope scope).bind fun previousScope => get_bind fun s s' alike => ?_
      rw [alike.owner]
      refine (setOwner _).bind fun _ => ?_
      refine (resolveBlock body).bind fun body => ?_
      refine (setOwner _).bind fun _ => ?_
      refine (enterScope _).bind fun _ => ?_
      refine (blockValue body).bind fun bodyType => ?_
      rw [bindAll_carry, Block.span_carry]
      exact ite (Ty.carry_inj laws) (pure rfl) (failType rfl rfl)
    | _ => exact fail
  | .record name fields span _, sym => by
    rw [Stmt.carry, Resolve.resolveStmt, Resolve.resolveStmt]
    refine get_bind fun s s' alike => pure ?_
    rw [bindAll_carry, alike.symbols, s.symbols.fields_carry sym alike.laws, Stmt.carry]
    rfl
  | .expr value, _ => by
    rw [Stmt.carry, Resolve.resolveStmt, Resolve.resolveStmt]
    exact (resolveExpr value).bind fun value => pure rfl

end

end Moves

/-! ### Built-in names -/

theorem initial_alike (laws : w.Lawful) : Scopes.initial.Alike w Scopes.initial := by
  refine ⟨laws, rfl, rfl, ?_⟩
  intro id scope scope' here there
  obtain rfl := Option.some.inj (here.symm.trans there)
  cases id with
  | zero =>
    obtain rfl := Option.some.inj here
    exact .bare none
  | succ id => simp [Scopes.initial] at here

theorem declareTypes_alike (laws : w.Lawful) {declare : Scopes → Option String × Ty → Scopes}
    (unknown : ∀ scopes ty, declare scopes (none, ty) = scopes)
    (known : ∀ scopes name ty,
      declare scopes (some name, ty) = (scopes.declareType? name ty).getD scopes)
    {types : List (Option String × Ty)} (fixed : ∀ type ∈ types, type.2.carry w = type.2)
    {a b : Scopes} (alike : a.Alike w b) :
    (types.foldl declare a).Alike w ((types.map (.map (.map w.name) id)).foldl declare b) := by
  induction types generalizing a b with
  | nil => exact alike
  | cons type rest ih =>
    obtain ⟨name?, ty⟩ := type
    have ⟨here, later⟩ := List.forall_mem_cons.mp fixed
    refine ih later ?_
    rw [Prod.map_apply, id]
    cases name? with
    | none => rwa [Option.map_none, unknown, unknown]
    | some name =>
      rw [Option.map_some, known, known, Scopes.declareType?, Scopes.declareType?,
        alike.ownType? name]
      cases a.ownType? name with
      | some other => exact alike
      | none =>
        refine alike.modify fun same => { same with types := fun other => ?_ }
        simp only [Std.HashMap.getElem?_insert, beq_iff_eq, laws.name_inj, same.types]
        split
        · rw [Option.map_some, here]
        · rfl

theorem builtinScopes_alike (laws : w.Lawful) {names names' : NameTable}
    (same : ∀ index < 4, names'.name? (index + 1) = (names.name? (index + 1)).map w.name) :
    (builtinScopes names).Alike w (builtinScopes names') := by
  simp only [builtinScopes, NameTable.numberName?, NameTable.stringName?, NameTable.booleanName?,
    NameTable.seqName?]
  rw [same 0 (by decide), same 1 (by decide), same 2 (by decide), same 3 (by decide)]
  exact declareTypes_alike laws (fun _ _ => rfl) (fun _ _ _ => rfl) (by simp [Ty.carry])
    (initial_alike laws)

end Resolve

/-- A module in other words gives the same module in those words, or the same error. -/
theorem Module.resolve_carry (laws : w.Lawful) (m : Module .parsed) {names names' : NameTable}
    (same : ∀ index < 4, names'.name? (index + 1) = (names.name? (index + 1)).map w.name) :
    (m.carry w.parsed).resolve names' =
      ((m.resolve names).map (Resolved.carry w)).mapError (CompileError.carry w) := by
  have resolving : Resolve.Moves w (List.map (Stmt.carry w.typed))
      (Resolve.hoist m.stmts >>= Resolve.resolveStmts #[] m.stmts)
      (Resolve.hoist (m.carry w.parsed).stmts >>=
        Resolve.resolveStmts #[] (m.carry w.parsed).stmts) := by
    rw [Module.carry, Stmt.carryAll_eq]
    refine (Resolve.Moves.hoist m.stmts).bind fun ids => ?_
    have rest := Resolve.Moves.resolveStmts (w := w) m.stmts #[] ids
    rwa [Array.map_empty] at rest
  have start : Bindings.Alike w ⟨#[], Resolve.builtinScopes names, none⟩
      ⟨#[], Resolve.builtinScopes names', none⟩ :=
    ⟨by simp [Symbols.carry], Resolve.builtinScopes_alike laws same, rfl⟩
  have outcome := resolving _ _ start
  rw [Module.resolve, Module.resolve, StateT.run, StateT.run]
  generalize (Resolve.hoist m.stmts >>= Resolve.resolveStmts #[] m.stmts) _ = here,
    (Resolve.hoist (m.carry w.parsed).stmts >>= _) _ = there at outcome ⊢
  cases outcome with
  | fails error => rfl
  | succeeds stmts alike =>
    change Except.ok (Resolved.mk ⟨stmts.map (Stmt.carry w.typed)⟩ _) = Except.ok (Resolved.mk _ _)
    rw [alike.symbols, Module.carry, Stmt.carryAll_eq]

/-! ### Twice -/

section Twice

variable {w' : Wording}

mutual

theorem Ty.carry_carry : ∀ ty : Ty, (ty.carry w).carry w' = ty.carry (w.andThen w')
  | .seqOf args => by rw [Ty.carry, Ty.carry, Ty.carry, Ty.carryAll_carry args]
  | .record .. | .number | .string | .boolean | .function | .seq => rfl

theorem Ty.carryAll_carry : ∀ types : List Ty,
    Ty.carryAll w' (Ty.carryAll w types) = Ty.carryAll (w.andThen w') types
  | [] => rfl
  | first :: rest => by
    rw [Ty.carryAll, Ty.carryAll, Ty.carryAll, first.carry_carry, Ty.carryAll_carry rest]

end

theorem Wording.typed_andThen : (w.andThen w').typed = w.typed.andThen w'.typed := by
  have types : Ty.carry (w.andThen w') = Ty.carry w' ∘ Ty.carry w :=
    funext fun ty => ty.carry_carry.symm
  rw [typed, types, ← Option.map_comp_map]
  rfl

theorem CompileError.carry_carry (error : CompileError) :
    (error.carry w).carry w' = error.carry (w.andThen w') := by
  cases error with
  | bind error =>
    obtain ⟨span, error⟩ := error
    cases error <;> rfl
  | type error =>
    obtain ⟨span, error⟩ := error
    cases error <;> simp [carry, TypeError.carry, Ty.carry_carry, Wording.andThen]
  | _ => rfl

theorem Resolved.carry_carry (resolved : Resolved) :
    (resolved.carry w).carry w' = resolved.carry (w.andThen w') := by
  have symbol (symbol : Symbol) : (symbol.carry w).carry w' = symbol.carry (w.andThen w') := by
    obtain ⟨name, ty, kind, span, owner⟩ := symbol
    cases kind <;> simp [Symbol.carry, SymbolKind.carry, Ty.carry_carry, Wording.andThen]
  rw [carry, carry, carry, Module.carry_carry, Wording.typed_andThen, Symbols.carry, Symbols.carry,
    Array.map_map]
  exact congrArg _ (Array.map_congr_left fun found _ => symbol found)

end Twice

/-! ### Elsewhere -/

section Elsewhere

variable (f : Span → Span)

def CompileError.relocate : CompileError → CompileError
  | parse error => parse (error.relocate f)
  | bind error => bind (error.relocate f)
  | type error => type (error.relocate f)
  | lower error => lower error

def Symbol.relocate (symbol : Symbol) : Symbol := { symbol with span := f symbol.span }

def Symbols.relocate (symbols : Symbols) : Symbols := symbols.map (Symbol.relocate f)

def Resolved.relocate (resolved : Resolved) : Resolved :=
  ⟨resolved.module.relocate f, resolved.symbols.relocate f⟩

mutual

theorem Ty.carry_ofPlace : ∀ ty : Ty, ty.carry (.ofPlace f) = ty
  | .seqOf args => by rw [Ty.carry, Ty.carryAll_ofPlace args]
  | .record .. | .number | .string | .boolean | .function | .seq => rfl

theorem Ty.carryAll_ofPlace : ∀ types : List Ty, Ty.carryAll (.ofPlace f) types = types
  | [] => rfl
  | first :: rest => by rw [Ty.carryAll, first.carry_ofPlace, Ty.carryAll_ofPlace rest]

end

theorem Wording.typed_ofPlace : (ofPlace f).typed = .ofPlace f := by
  have types : Ty.carry (.ofPlace f) = id := funext fun ty => ty.carry_ofPlace f
  rw [typed, types, Option.map_id]
  rfl

theorem CompileError.carry_ofPlace (error : CompileError) :
    error.carry (.ofPlace f) = error.relocate f := by
  cases error with
  | bind error =>
    obtain ⟨span, error⟩ := error
    cases error <;> rfl
  | type error =>
    obtain ⟨span, error⟩ := error
    cases error <;> simp [carry, TypeError.carry, Ty.carry_ofPlace] <;> rfl
  | _ => rfl

theorem Resolved.carry_ofPlace (resolved : Resolved) :
    resolved.carry (.ofPlace f) = resolved.relocate f := by
  have symbol (symbol : Symbol) : symbol.carry (.ofPlace f) = symbol.relocate f := by
    obtain ⟨name, ty, kind, span, owner⟩ := symbol
    cases kind <;> simp [Symbol.carry, SymbolKind.carry, Ty.carry_ofPlace] <;> rfl
  rw [carry, Wording.typed_ofPlace]
  exact congrArg _ (Array.map_congr_left fun found _ => symbol found)

theorem Wording.ofPlace_lawful : (ofPlace f).Lawful := ⟨rfl, fun same => same⟩

/-- Resolving a module elsewhere gives the same module there, or the same error there. -/
theorem Module.resolve_relocate (m : Module .parsed) (names : NameTable) :
    (m.relocate f).resolve names =
      ((m.resolve names).map (Resolved.relocate f)).mapError (CompileError.relocate f) := by
  have same : ∀ index < 4, names.name? (index + 1) = (names.name? (index + 1)).map id :=
    fun _ _ => (congrFun Option.map_id _).symm
  have moved := m.resolve_carry (Wording.ofPlace_lawful f) same
  rwa [funext (Resolved.carry_ofPlace f), funext (CompileError.carry_ofPlace f)] at moved

end Elsewhere

end LetChain
