import LetChain.Proofs.Compiled.Behaviour
import LetChain.Proofs.Typing.Decorated

/-! What resolving a module adds to it: symbols that are all in use, each declared once, and types that
follow from the types below them. -/

namespace LetChain

namespace Resolved

/-- A module with its decorations, and what they may be relied on for. -/
structure Decorates (resolved : Resolved) (m : Module .parsed) : Prop where
  erase : resolved.module.erase = m
  /-- The declarations of the tree have all symbols of the table, each symbol once. -/
  declares : resolved.module.declares.Perm (List.range resolved.symbols.size)
  nodeSymbols : ∀ node ∈ resolved.module.nodes, ∀ id ∈ node.part.symbols, id < resolved.symbols.size
  symbols : ∀ id, id < resolved.symbols.size → ∀ other ∈ (resolved.symbols.get id).symbols,
    other < resolved.symbols.size
  field : ∀ id fields, (resolved.symbols.get id).kind = .record fields →
    ∀ index field, fields[index]? = some field →
      (resolved.symbols.get field).kind = .field id index
  param : ∀ id params returns scope,
    (resolved.symbols.get id).kind = .function params returns scope →
    ∀ index param, params[index]? = some param →
      (resolved.symbols.get param).kind = .param index ∧
        (resolved.symbols.get param).owner = some id
  localVar : ∀ id, id < resolved.symbols.size → (resolved.symbols.get id).kind = .localVar →
    ∃ function params returns scope, (resolved.symbols.get id).owner = some function ∧
      (resolved.symbols.get function).kind = .function params returns scope
  nodes : ∀ node ∈ resolved.module.nodes, node.Decorated resolved.globals

end Resolved

/-! ### Symbols in range -/

theorem Ty.OfValues.role_of_mem {symbol : SymbolId → Symbol} {ty : Ty} (ofValues : ty.OfValues symbol)
    {id : SymbolId} (member : id ∈ ty.records) : (symbol id).kind.role = "type" := by
  induction ofValues with
  | number | string | boolean => simp [Ty.records] at member
  | seqOf _ ih => exact ih (by simpa [Ty.records, Ty.allRecords] using member)
  | record kind _ =>
    obtain rfl : id = _ := by simpa [Ty.records] using member
    rw [kind]
    rfl

section Range

variable {resolved : Resolved} {id : SymbolId}

theorem Resolved.bound_of_ne_default (known : resolved.globals.symbol id ≠ default) :
    id < resolved.symbols.size := by
  by_cases bound : id < resolved.symbols.size
  · exact bound
  · apply absurd _ known
    simp only [Resolved.globals, Symbols.get, Array.getD_eq_getD_getElem?,
      Array.getElem?_eq_none (Nat.le_of_not_lt bound)]
    rfl

theorem Resolved.bound_of_role {role : String}
    (isRole : (resolved.globals.symbol id).kind.role = role) (notLocal : role ≠ "local") :
    id < resolved.symbols.size := by
  apply Resolved.bound_of_ne_default
  intro same
  rw [same] at isRole
  exact notLocal isRole.symm

theorem Ty.OfValues.bound {ty : Ty} (ofValues : ty.OfValues resolved.globals.symbol)
    (member : id ∈ ty.records) : id < resolved.symbols.size :=
  Resolved.bound_of_role (ofValues.role_of_mem member) (by decide)

theorem Expr.Decorated.bound {owner : Option SymbolId} {e : Expr .typed}
    (decorated : e.Decorated resolved.globals owner) (member : id ∈ (Part.expr e).refers) :
    id < resolved.symbols.size := by
  cases e with
  | named name sym span ty =>
    obtain rfl := List.mem_singleton.mp member
    obtain ⟨⟨-, -, function, -, owned⟩, -⟩ := decorated
    apply Resolved.bound_of_ne_default
    intro same
    rw [same] at owned
    cases owned
  | call name args sym span ty =>
    obtain rfl := List.mem_singleton.mp member
    obtain ⟨-, params, isFunction, -⟩ := decorated
    exact Resolved.bound_of_role (by rw [isFunction]; rfl) (by decide : "function" ≠ "local")
  | construct name args sym span ty =>
    obtain rfl := List.mem_singleton.mp member
    obtain ⟨-, -, fields, isRecord, -⟩ := decorated
    exact Resolved.bound_of_role (by rw [isRecord]; rfl) (by decide : "type" ≠ "local")
  | member base field sym span ty =>
    obtain rfl := List.mem_singleton.mp member
    obtain ⟨_, _, -, ⟨-, _, _, -, -, isField⟩, -⟩ := decorated
    exact Resolved.bound_of_role (by rw [isField]; rfl) (by decide : "field" ≠ "local")
  | _ => cases member

end Range

/-! ### Sound tables -/

namespace SymbolKind

variable {kind : SymbolKind}

@[simp] theorem forgetScope_eq_record {fields : List SymbolId} :
    kind.forgetScope = .record fields ↔ kind = .record fields := by
  cases kind <;> simp [forgetScope]

@[simp] theorem forgetScope_eq_field {record : SymbolId} {index : Nat} :
    kind.forgetScope = .field record index ↔ kind = .field record index := by
  cases kind <;> simp [forgetScope]

@[simp] theorem forgetScope_eq_param {index : Nat} :
    kind.forgetScope = .param index ↔ kind = .param index := by
  cases kind <;> simp [forgetScope]

theorem forgetScope_eq_function {params : List SymbolId} {returns : Ty} :
    kind.forgetScope = .function params returns 0 ↔ ∃ scope, kind = .function params returns scope := by
  cases kind <;> simp [forgetScope]

@[simp] theorem role_forgetScope : kind.forgetScope.role = kind.role := by
  cases kind <;> rfl

end SymbolKind

theorem Symbol.symbols_forgetScope (symbol : Symbol) : symbol.forgetScope.symbols = symbol.symbols := by
  cases kind : symbol.kind <;>
    simp [Symbol.symbols, Symbol.forgetScope, SymbolKind.forgetScope, SymbolKind.symbols, kind]

theorem Lexical.Sound.symbols_bound {s : Symbols} (sound : Lexical.Sound s) {id other : SymbolId}
    (bound : id < s.size) (member : other ∈ (s.get id).symbols) : other < s.size := by
  have known {id : SymbolId} {role : String} (isRole : (s.get id).kind.role = role)
      (notLocal : role ≠ "local") : id < s.size := ((Lexical.Stays.refl s).keeps isRole notLocal).1
  have typed {ty : Ty} (ofValues : ty.OfValues s.get) (member : other ∈ ty.records) :
      other < s.size := known (ofValues.role_of_mem member) (by decide)
  have own := sound.symbols id bound
  unfold Symbol.Sound at own
  simp only [Symbol.symbols, List.mem_append, Option.mem_toList] at member
  cases kind : (s.get id).kind with
  | record fields =>
    rw [kind] at own member
    rcases member with (owned | inType) | inKind
    · rw [own.1] at owned
      cases owned
    · rw [(sound.kinds id).record fields kind] at inType
      obtain rfl := List.mem_singleton.mp inType
      exact bound
    · exact sound.kinds.field_bound kind other inKind
  | function params returns scope =>
    rw [kind] at own member
    obtain ⟨free, isFunction, ofValues⟩ := own
    rcases member with (owned | inType) | inKind
    · rw [free] at owned
      cases owned
    · rw [isFunction] at inType
      cases inType
    · rcases List.mem_append.mp inKind with isParam | inReturns
      · exact sound.kinds.param_bound kind other isParam
      · exact typed ofValues inReturns
  | param index | localVar =>
    rw [kind] at own member
    obtain ⟨⟨function, owned, role⟩, ofValues⟩ := own
    rcases member with (isOwner | inType) | inKind
    · rw [owned] at isOwner
      cases isOwner
      exact known role (by decide)
    · exact typed ofValues inType
    · cases inKind
  | field record index =>
    rw [kind] at own member
    obtain ⟨free, role, -, ofValues⟩ := own
    rcases member with (owned | inType) | inKind
    · rw [free] at owned
      cases owned
    · exact typed ofValues inType
    · obtain rfl := List.mem_singleton.mp inKind
      exact known role (by decide)

theorem Lexical.Sound.fields_length {s : Symbols} (sound : Lexical.Sound s) {id : SymbolId}
    {fields : List SymbolId} (kind : (s.get id).kind = .record fields) :
    fields.length ≤ Resolve.maxIndex + 1 := by
  by_contra many
  have bound : Resolve.maxIndex + 1 < fields.length := Nat.lt_of_not_le many
  obtain ⟨known, isField⟩ := (sound.kinds id).field fields kind _ _ (List.getElem?_eq_getElem bound)
  have own := sound.symbols _ known
  unfold Symbol.Sound at own
  rw [isField] at own
  exact Nat.not_succ_le_self _ own.2.2.1

theorem Lexical.Sound.nodup_fields {s : Symbols} (sound : Lexical.Sound s) {id : SymbolId}
    {fields : List SymbolId} (kind : (s.get id).kind = .record fields) :
    (fields.map fun field => (s.get field).name).Nodup := by
  have own := sound.symbols id (Symbols.bound_of_kind (by simp [kind]))
  unfold Symbol.Sound at own
  rw [kind] at own
  exact own.2.2

/-! ### Resolved modules -/

theorem Module.resolve_sound {m : Module .parsed} {names : NameTable} {resolved : Resolved}
    (top : ∀ stmt ∈ m.stmts, stmt.IsDeclaration) (ran : m.resolve names = .ok resolved) :
    resolved.module.erase = m ∧ Lexical.Sound resolved.symbols.forgetScopes ∧
      resolved.module.declares.Perm (List.range resolved.symbols.size) ∧
      ∀ node ∈ resolved.module.nodes, node.Decorated resolved.globals := by
  have checked : m.check names = .ok resolved.forgetScopes := by
    rw [← m.forgetScopes_resolve names, ran]
    rfl
  obtain ⟨erased, sound, ⟨new, fresh, perm⟩, decorated⟩ := m.check_decorated top checked
  refine ⟨erased, sound, ?_, decorated _ fun id _ => ?_⟩
  · have all : new.Perm (List.range' 0 resolved.symbols.size) := by
      simpa [Resolved.forgetScopes, Lexical.Fresh] using fresh
    rw [List.range_eq_range']
    exact perm.trans all
  · simp only [Resolved.globals, Resolved.forgetScopes, Symbols.get_forgetScopes]
    cases kind : (resolved.symbols.get id).kind <;>
      simp [Symbol.forgetScope, SymbolKind.forgetScope, kind]

theorem Node.Decorated.bound {resolved : Resolved} {node : Node}
    (declares : ∀ id ∈ node.declares, id < resolved.symbols.size)
    (fits : node.Decorated resolved.globals) :
    ∀ id ∈ node.part.symbols, id < resolved.symbols.size := by
  intro id occurs
  simp only [Part.symbols, List.mem_append] at occurs
  rcases occurs with (declared | refers) | inType
  · exact declares id declared
  · obtain ⟨owner, part⟩ := node
    cases part with
    | expr e => exact fits.1.bound refers
    | block body => cases refers
    | stmt stmt => cases refers
  · obtain ⟨owner, part⟩ := node
    cases part with
    | expr e => exact fits.2.bound inType
    | block body =>
      obtain ⟨⟨value, -, typed⟩, ofValues⟩ := fits
      exact (ofValues _ typed).bound (by simpa [Part.records, typed] using inType)
    | stmt stmt => cases inType

theorem Module.resolve_decorated {m : Module .parsed} {names : NameTable} {resolved : Resolved}
    (top : ∀ stmt ∈ m.stmts, stmt.IsDeclaration) (ran : m.resolve names = .ok resolved) :
    resolved.Decorates m := by
  obtain ⟨erased, sound, declares, decorated⟩ := m.resolve_sound top ran
  have kinds := sound.kinds
  have same (id : SymbolId) : resolved.symbols.forgetScopes.get id =
    (resolved.symbols.get id).forgetScope := Symbols.get_forgetScopes _ _
  refine ⟨erased, declares, fun node member => (decorated node member).bound fun id declared =>
    List.mem_range.mp (declares.mem_iff.mp (List.mem_flatMap.mpr ⟨node, member, declared⟩)),
    ?_, ?_, ?_, ?_, decorated⟩
  · intro id bound other occurs
    have bound' : id < resolved.symbols.forgetScopes.size := by simpa using bound
    have occurs' : other ∈ (resolved.symbols.forgetScopes.get id).symbols := by
      rw [same, Symbol.symbols_forgetScope]
      exact occurs
    simpa using sound.symbols_bound bound' occurs'
  · intro id fields kind index field place
    have isField := ((kinds id).field fields (by simp [same, Symbol.forgetScope, kind]) index field place).2
    simpa [same, Symbol.forgetScope] using isField
  · intro id params returns scope kind index param place
    have isParam := ((kinds id).param params returns 0
      (by simp [same, Symbol.forgetScope, SymbolKind.forgetScope, kind]) index param place).2
    simpa [same, Symbol.forgetScope] using isParam
  · intro id bound kind
    have bound' : id < resolved.symbols.forgetScopes.size := by simpa using bound
    obtain ⟨⟨function, owned, role⟩, -⟩ := sound.variable bound'
      (Or.inr (by simp [same, Symbol.forgetScope, SymbolKind.forgetScope, kind]))
    simp only [same, Symbol.forgetScope, SymbolKind.role_forgetScope] at owned role
    obtain ⟨params, returns, scope, isFunction⟩ := SymbolKind.role_eq_function.mp role
    exact ⟨function, params, returns, scope, owned, isFunction⟩

/-- Whatever the parser reads and the resolver accepts comes out as it was, with decorations that code
generation may rely on. -/
theorem resolve_decorates {source : String} {table names : NameTable} {m : Module .parsed}
    {resolved : Resolved} (parsed : (parseModule source table).1 = .ok m)
    (ran : m.resolve names = .ok resolved) : resolved.Decorates m :=
  m.resolve_decorated (parseModule_isDeclaration parsed) ran

theorem resolve_decorates_negationText : ∃ m names resolved,
    (parseModule negationText .empty).1 = .ok m ∧ m.resolve names = .ok resolved ∧
      resolved.Decorates m := by
  obtain ⟨compilation, compiled, -⟩ := compile_negationText
  obtain ⟨m, names, parsed, ran, -⟩ := compile_eq_ok.mp compiled
  have read : (parseModule negationText .empty).1 = .ok m := by rw [parsed]
  exact ⟨m, names, compilation.resolved, read, ran, resolve_decorates read ran⟩

end LetChain
