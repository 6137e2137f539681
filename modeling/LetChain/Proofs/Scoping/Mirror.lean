import LetChain.Proofs.Scoping.Discipline
import LetChain.Proofs.Scoping.Lexical

/-! How the scope arena and a lexical environment say the same: the scopes from the current one
outward hold what the layers of the environment hold. -/

namespace LetChain

/-! ### Symbols without scopes -/

namespace Symbols

@[simp] theorem empty_forgetScopes : forgetScopes #[] = #[] := by
  simp [forgetScopes]

@[simp] theorem size_forgetScopes (symbols : Symbols) :
    symbols.forgetScopes.size = symbols.size := by
  simp [forgetScopes]

@[simp] theorem push_forgetScopes (symbols : Symbols) (symbol : Symbol) :
    forgetScopes (symbols.push symbol) = symbols.forgetScopes.push symbol.forgetScope := by
  simp [forgetScopes]

@[simp] theorem get_forgetScopes (symbols : Symbols) (id : SymbolId) :
    symbols.forgetScopes.get id = (symbols.get id).forgetScope := by
  simp only [get, forgetScopes, Array.getD_eq_getD_getElem?, Array.getElem?_map]
  cases symbols[id]? <;> rfl

@[simp] theorem setKind_forgetScopes (symbols : Symbols) (id : SymbolId) (kind : SymbolKind) :
    (symbols.setKind id kind).forgetScopes = symbols.forgetScopes.setKind id kind.forgetScope := by
  apply Array.ext_getElem?
  intro other
  simp only [forgetScopes, setKind, Array.getElem?_map, Array.getElem?_modify]
  split <;> cases symbols[other]? <;> rfl

@[simp] theorem fields_forgetScopes (symbols : Symbols) (id : SymbolId) :
    symbols.forgetScopes.fields id = symbols.fields id := by
  simp only [fields, get_forgetScopes, Symbol.fields, Symbol.forgetScope]
  cases (symbols.get id).kind <;> rfl

@[simp] theorem role_forgetScope (kind : SymbolKind) : kind.forgetScope.role = kind.role := by
  cases kind <;> rfl

@[simp] theorem expectedArgs_forgetScopes (symbols : Symbols) (name : String)
    (params : List SymbolId) :
    Resolve.expectedArgs symbols.forgetScopes name params =
      Resolve.expectedArgs symbols name params := by
  simp [Resolve.expectedArgs, Symbol.forgetScope]

@[simp] theorem expectedFields_forgetScopes (symbols : Symbols) (name : String)
    (fields : List SymbolId) :
    Resolve.expectedFields symbols.forgetScopes name fields =
      Resolve.expectedFields symbols name fields := by
  simp [Resolve.expectedFields, Symbol.forgetScope]

@[simp] theorem fieldNamed_forgetScopes (symbols : Symbols) (record : SymbolId) (name : String) :
    Resolve.fieldNamed? symbols.forgetScopes record name =
      Resolve.fieldNamed? symbols record name := by
  simp [Resolve.fieldNamed?, Symbol.forgetScope]

end Symbols

namespace Lexical

/-! ### Layers and scopes -/

structure Layer.Mirrors (layer : Layer) (scope : Scope) : Prop where
  names : ∀ name, scope.names[name]? = layer.names.lookup name
  types : ∀ name, scope.types[name]? = layer.types.lookup name

theorem Layer.mirrors_empty (parent : Option ScopeId) :
    Layer.Mirrors ⟨[], []⟩ ⟨parent, ∅, ∅⟩ := by
  constructor <;> intro name <;> simp

theorem lookup_append_single {α : Type} (entries : List (String × α)) (key name : String)
    (value : α) (absent : entries.lookup key = none) :
    (entries ++ [(key, value)]).lookup name =
      if key = name then some value else entries.lookup name := by
  rw [List.lookup_append]
  by_cases same : key = name
  · subst same
    simp [absent]
  · have other : (name == key) = false := by simpa using Ne.symm same
    simp [same, List.lookup_cons, other]

theorem Layer.Mirrors.addName {layer : Layer} {scope : Scope} (mirrored : layer.Mirrors scope)
    (key : String) (id : SymbolId) (absent : layer.names.lookup key = none) :
    Layer.Mirrors ⟨layer.names ++ [(key, id)], layer.types⟩
      { scope with names := scope.names.insert key id } := by
  refine ⟨fun name => ?_, mirrored.types⟩
  rw [lookup_append_single _ _ _ _ absent, Std.HashMap.getElem?_insert, mirrored.names]
  simp

theorem Layer.Mirrors.addType {layer : Layer} {scope : Scope} (mirrored : layer.Mirrors scope)
    (key : String) (ty : Ty) (absent : layer.types.lookup key = none) :
    Layer.Mirrors ⟨layer.names, layer.types ++ [(key, ty)]⟩
      { scope with types := scope.types.insert key ty } := by
  refine ⟨mirrored.names, fun name => ?_⟩
  rw [lookup_append_single _ _ _ _ absent, Std.HashMap.getElem?_insert, mirrored.types]
  simp

theorem Layer.Mirrors.again {layer : Layer} {scope : Scope} (mirrored : layer.Mirrors scope)
    {key : String} {ty previous : Ty} (present : layer.types.lookup key = some previous) :
    Layer.Mirrors ⟨layer.names, layer.types ++ [(key, ty)]⟩ scope := by
  refine ⟨mirrored.names, fun name => ?_⟩
  rw [mirrored.types, List.lookup_append]
  by_cases same : name = key
  · subst same
    simp [present]
  · have other : (name == key) = false := by simpa using same
    simp [List.lookup_cons, other]

inductive Chain (scopes : Array Scope) : Nat → List Layer → Prop
  | root {id scope layer} : scopes[id]? = some scope → scope.parent = none →
      layer.Mirrors scope → Chain scopes id [layer]
  | child {id parent scope layer layers} : scopes[id]? = some scope →
      scope.parent = some parent → parent < id → layer.Mirrors scope →
      Chain scopes parent layers → Chain scopes id (layer :: layers)

namespace Chain

variable {scopes scopes' : Array Scope} {id : Nat} {layers : List Layer}

theorem bound (chain : Chain scopes id layers) : id < scopes.size := by
  cases chain with
  | root found _ _ => exact (Array.getElem?_eq_some_iff.mp found).1
  | child found _ _ _ _ => exact (Array.getElem?_eq_some_iff.mp found).1

theorem search {α : Type} {find : Scope → Option α} {get : Layer → Option α}
    (same : ∀ layer scope, layer.Mirrors scope → find scope = get layer)
    (chain : Chain scopes id layers) :
    Scopes.searchFrom? scopes find id = layers.findSome? get := by
  induction chain with
  | root found parent mirrored =>
    rw [Scopes.searchFrom?, found]
    simp only [parent, same _ _ mirrored, List.findSome?_cons, List.findSome?_nil]
    split <;> simp_all
  | child found parent below mirrored _ ih =>
    rw [Scopes.searchFrom?, found]
    simp only [parent, same _ _ mirrored, List.findSome?_cons]
    split <;> simp_all

theorem congr (chain : Chain scopes id layers)
    (same : ∀ other, other ≤ id → scopes'[other]? = scopes[other]?) :
    Chain scopes' id layers := by
  induction chain with
  | root found parent mirrored =>
    exact Chain.root ((same _ (Nat.le_refl _)).trans found) parent mirrored
  | child found parent below mirrored _ ih =>
    refine Chain.child ((same _ (Nat.le_refl _)).trans found) parent below mirrored ?_
    exact ih fun other bound => same other (by omega)

theorem head {layer : Layer} (chain : Chain scopes id (layer :: layers)) :
    ∃ scope, scopes[id]? = some scope ∧ layer.Mirrors scope := by
  cases chain with
  | root found _ mirrored => exact ⟨_, found, mirrored⟩
  | child found _ _ mirrored _ => exact ⟨_, found, mirrored⟩

theorem congrHead {layer layer' : Layer} (chain : Chain scopes id (layer :: layers))
    (mirrored : ∀ scope, layer.Mirrors scope → layer'.Mirrors scope) :
    Chain scopes id (layer' :: layers) := by
  cases chain with
  | root found noParent here => exact Chain.root found noParent (mirrored _ here)
  | child found parent below here rest => exact Chain.child found parent below (mirrored _ here) rest

theorem modify {layer layer' : Layer} (chain : Chain scopes id (layer :: layers))
    (f : Scope → Scope) (parent : ∀ scope, (f scope).parent = scope.parent)
    (mirrored : ∀ scope, scopes[id]? = some scope → layer'.Mirrors (f scope)) :
    Chain (scopes.modify id f) id (layer' :: layers) := by
  have changed (scope : Scope) (found : scopes[id]? = some scope) :
      (scopes.modify id f)[id]? = some (f scope) := by
    simp [Array.getElem?_modify, found]
  cases chain with
  | root found noParent _ =>
    exact Chain.root (changed _ found) ((parent _).trans noParent) (mirrored _ found)
  | child found itsParent below _ rest =>
    refine Chain.child (changed _ found) ((parent _).trans itsParent) below (mirrored _ found) ?_
    refine rest.congr fun other before => ?_
    rw [Array.getElem?_modify, if_neg (by omega)]

end Chain

structure Tracks (b : Bindings) (env : Env) : Prop where
  chain : Chain b.scopes.scopes b.scopes.current env.layers
  owner : env.owner = b.owner

namespace Tracks

variable {b b' : Bindings} {env : Env}

theorem lookup (tracked : Tracks b env) (name : String) :
    b.scopes.lookup? name = env.symbol? name :=
  tracked.chain.search fun _ _ mirrored => mirrored.names name

theorem lookupType (tracked : Tracks b env) (name : String) :
    b.scopes.lookupType? name = env.type? name :=
  tracked.chain.search fun _ _ mirrored => mirrored.types name

theorem keep (tracked : Tracks b env)
    (kept : Keeps b.symbols.size b.scopes.scopes.size false b b') : Tracks b' env := by
  refine ⟨?_, tracked.owner.trans kept.owner.symm⟩
  rw [kept.current]
  refine tracked.chain.congr fun other before => ?_
  exact kept.scope other (Nat.lt_of_le_of_lt before tracked.chain.bound) (by simp)

theorem push (tracked : Tracks b env) :
    Tracks { b with scopes := b.scopes.push } env.inner := by
  obtain ⟨symbols, ⟨scopes, current⟩, owner⟩ := b
  have bound := tracked.chain.bound
  have new : (scopes.push ⟨some current, ∅, ∅⟩)[scopes.size]? = some ⟨some current, ∅, ∅⟩ := by
    simp
  refine ⟨Chain.child new rfl bound (Layer.mirrors_empty _) ?_, tracked.owner⟩
  refine tracked.chain.congr fun other before => ?_
  have older : other < scopes.size := Nat.lt_of_le_of_lt before bound
  simp [Scopes.push, Array.getElem?_push, Nat.ne_of_lt older]

theorem leave (tracked : Tracks b env)
    (kept : Keeps b.symbols.size b.scopes.push.scopes.size true
      { b with scopes := b.scopes.push } b') :
    Tracks { b' with scopes := b'.scopes.pop } env :=
  tracked.keep kept.leave

end Tracks

end Lexical

end LetChain
