import LetChain.Typing.Scope

/-! The scope arena under any history of operations. Scopes can be left and entered again in any order,
so they form a tree; what a name means in a scope is what was first declared under it in the nearest
scope on the way to the root. -/

namespace LetChain

namespace Scopes

/-! ### Histories -/

inductive Action where
  | push
  | addChild
  | pop
  | enter (scope : ScopeId)
  | declare (name : String) (symbol : SymbolId)
  | declareType (name : String) (ty : Ty)

def Action.Moves : Action → Prop
  | .declare .. | .declareType .. => False
  | _ => True

/-- Only a scope that there is can be entered. -/
def Allows (arena : Scopes) : Action → Prop
  | .enter scope => scope < arena.scopes.size
  | _ => True

/-- What an action makes of the arena, unless it is a declaration that is refused. -/
def perform? (arena : Scopes) : Action → Option Scopes
  | .push => some arena.push
  | .addChild => some arena.addChild
  | .pop => some arena.pop
  | .enter scope => some (arena.enter scope)
  | .declare name symbol => (arena.declare name symbol).toOption
  | .declareType name ty => arena.declareType? name ty

/-- A declaration that is refused changes nothing. -/
def apply (arena : Scopes) (action : Action) : Scopes := (arena.perform? action).getD arena

def run (arena : Scopes) : List Action → Scopes
  | [] => arena
  | action :: rest => (arena.apply action).run rest

def AllowsAll (arena : Scopes) : List Action → Prop
  | [] => True
  | action :: rest => arena.Allows action ∧ (arena.apply action).AllowsAll rest

instance (arena : Scopes) : (action : Action) → Decidable (arena.Allows action)
  | .enter scope => inferInstanceAs (Decidable (scope < arena.scopes.size))
  | .push | .addChild | .pop | .declare .. | .declareType .. => .isTrue trivial

/-! ### The tree -/

/-- Parents come before their children, and all scopes but the first have one. -/
structure Rooted (arena : Scopes) : Prop where
  current : arena.current < arena.scopes.size
  root : (arena.scopes[0]?).map Scope.parent = some none
  parent : ∀ (id : ScopeId) (scope : Scope), arena.scopes[id]? = some scope → id ≠ 0 →
    ∃ parent < id, scope.parent = some parent

theorem initial_rooted : initial.Rooted := by
  refine ⟨Nat.zero_lt_one, rfl, fun id scope found isChild => ?_⟩
  have bound := (Array.getElem?_eq_some_iff.mp found).1
  exact absurd (Nat.lt_one_iff.mp bound) isChild

def chain (scopes : Array Scope) (id : ScopeId) : List ScopeId :=
  match scopes[id]? with
  | none => []
  | some scope =>
    match scope.parent with
    | some parent => if parent < id then id :: chain scopes parent else [id]
    | none => [id]

theorem searchFrom?_eq {α : Type} (scopes : Array Scope) (find : Scope → Option α) (id : ScopeId) :
    searchFrom? scopes find id = (chain scopes id).findSome? fun id => (scopes[id]?).bind find := by
  induction id using Nat.strongRecOn with
  | ind id ih =>
    rw [searchFrom?, chain]
    cases found : scopes[id]? with
    | none => rfl
    | some scope =>
      cases isParent : scope.parent with
      | none => cases own : find scope <;> simp [found, own, isParent]
      | some parent =>
        by_cases before : parent < id
        · cases own : find scope <;> simp [found, own, isParent, before, ih parent before]
        · cases own : find scope <;> simp [found, own, isParent, before]

theorem chain_congr {scopes scopes' : Array Scope} {id : ScopeId}
    (same : ∀ other ≤ id, (scopes'[other]?).map Scope.parent = (scopes[other]?).map Scope.parent) :
    chain scopes' id = chain scopes id := by
  induction id using Nat.strongRecOn with
  | ind id ih =>
    have here := same id (Nat.le_refl _)
    rw [chain, chain]
    cases found : scopes[id]? with
    | none =>
      rw [found, Option.map_none, Option.map_eq_none_iff] at here
      rw [here]
    | some scope =>
      rw [found, Option.map_some, Option.map_eq_some_iff] at here
      obtain ⟨scope', found', sameParent⟩ := here
      rw [found']
      simp only [sameParent]
      cases isParent : scope.parent with
      | none => rfl
      | some parent =>
        by_cases before : parent < id
        · simp only [before, if_true]
          rw [ih parent before fun other least => same other (Nat.le_trans least (Nat.le_of_lt before))]
        · simp only [before, if_false]

theorem Rooted.chain_getLast? {arena : Scopes} (rooted : arena.Rooted) {id : ScopeId}
    (bound : id < arena.scopes.size) : (chain arena.scopes id).getLast? = some 0 := by
  induction id using Nat.strongRecOn with
  | ind id ih =>
    have found := Array.getElem?_eq_getElem bound
    rw [chain, found]
    by_cases isRoot : id = 0
    · subst isRoot
      have free := rooted.root
      rw [found, Option.map_some, Option.some.injEq] at free
      simp [free]
    · obtain ⟨parent, before, isParent⟩ := rooted.parent id _ found isRoot
      have last := ih parent before (Nat.lt_trans before bound)
      simp only [isParent, before, if_true]
      rw [List.getLast?_cons, last, Option.getD_some]

/-! ### Name spaces -/

/-- Symbols and types have names of their own: what a scope gives a name, and which actions declare
one. -/
structure Space (α : Type) where
  own : Scope → String → Option α
  declares? : Action → Option (String × α)

def symbolSpace : Space SymbolId where
  own scope name := scope.names[name]?
  declares?
    | .declare name symbol => some (name, symbol)
    | _ => none

def typeSpace : Space Ty where
  own scope name := scope.types[name]?
  declares?
    | .declareType name ty => some (name, ty)
    | _ => none

/-- A declaration that succeeded. -/
structure Entry (α : Type) where
  scope : ScopeId
  name : String
  value : α

def first? {α : Type} (entries : List (Entry α)) (scope : ScopeId) (name : String) : Option α :=
  (entries.find? fun entry => entry.scope = scope ∧ entry.name = name).map Entry.value

theorem first?_nil {α : Type} (scope : ScopeId) (name : String) :
    first? ([] : List (Entry α)) scope name = none := rfl

theorem first?_append {α : Type} (entries more : List (Entry α)) (scope : ScopeId) (name : String) :
    first? (entries ++ more) scope name = (first? entries scope name).or (first? more scope name) := by
  rw [first?, List.find?_append, first?, first?]
  cases entries.find? fun entry => entry.scope = scope ∧ entry.name = name <;> rfl

namespace Space

variable {α : Type} (space : Space α)

def ownAt (arena : Scopes) (id : ScopeId) (name : String) : Option α :=
  (arena.scopes[id]?).bind (space.own · name)

/-- What a name means in a scope. -/
def visible (arena : Scopes) (id : ScopeId) (name : String) : Option α :=
  searchFrom? arena.scopes (space.own · name) id

/-- The declaration that an action makes, unless it is refused. -/
def made (arena : Scopes) (action : Action) : List (Entry α) :=
  match arena.perform? action, space.declares? action with
  | some _, some (name, value) => [⟨arena.current, name, value⟩]
  | _, _ => []

/-- All declarations that succeed, in order. -/
def log (arena : Scopes) : List Action → List (Entry α)
  | [] => []
  | action :: rest => space.made arena action ++ log (arena.apply action) rest

/-- One action adds the declaration that it makes, and names have no values before any. -/
structure Sound : Prop where
  initial : ∀ id name, space.ownAt initial id name = none
  apply : ∀ {arena : Scopes} {action : Action} (id : ScopeId) (name : String),
    arena.current < arena.scopes.size →
    space.ownAt (arena.apply action) id name =
      (space.ownAt arena id name).or (first? (space.made arena action) id name)

end Space

/-! ### One action -/

inductive Change (arena : Scopes) : Array Scope → Prop where
  | same : Change arena arena.scopes
  | added : Change arena (arena.scopes.push ⟨some arena.current, ∅, ∅⟩)
  | named (add : Scope → Scope) (keeps : ∀ scope, (add scope).parent = scope.parent) :
      Change arena (arena.scopes.modify arena.current add)

theorem pop_scopes (arena : Scopes) : arena.pop.scopes = arena.scopes := by
  rw [pop]
  split <;> rfl

theorem declare_eq (arena : Scopes) (name : String) (symbol : SymbolId) :
    arena.declare name symbol =
      match symbolSpace.ownAt arena arena.current name with
      | some previous => .error previous
      | none => .ok { arena with scopes := arena.scopes.modify arena.current fun scope =>
        { scope with names := scope.names.insert name symbol } } := rfl

theorem declareType?_eq (arena : Scopes) (name : String) (ty : Ty) :
    arena.declareType? name ty =
      match typeSpace.ownAt arena arena.current name with
      | some _ => none
      | none => some { arena with scopes := arena.scopes.modify arena.current fun scope =>
        { scope with types := scope.types.insert name ty } } := rfl

theorem apply_change (arena : Scopes) (action : Action) :
    arena.Change (arena.apply action).scopes := by
  cases action with
  | push | addChild => exact .added
  | pop =>
    rw [show (arena.apply .pop).scopes = arena.scopes from pop_scopes arena]
    exact .same
  | enter scope => exact .same
  | declare name symbol =>
    rw [apply, perform?, declare_eq]
    split
    · exact .same
    · simp only [Except.toOption, Option.getD_some]
      exact .named _ fun _ => rfl
  | declareType name ty =>
    rw [apply, perform?, declareType?_eq]
    split
    · exact .same
    · simp only [Option.getD_some]
      exact .named _ fun _ => rfl

theorem Change.size_le {arena : Scopes} {scopes : Array Scope} (change : arena.Change scopes) :
    arena.scopes.size ≤ scopes.size := by
  cases change with
  | same => exact Nat.le_refl _
  | added => simp
  | named => simp

theorem Change.parent_eq {arena : Scopes} {scopes : Array Scope} (change : arena.Change scopes)
    {id : ScopeId} (bound : id < arena.scopes.size) :
    (scopes[id]?).map Scope.parent = (arena.scopes[id]?).map Scope.parent := by
  cases change with
  | same => rfl
  | added => rw [Array.getElem?_push, if_neg (Nat.ne_of_lt bound)]
  | named add keeps =>
    rw [Array.getElem?_modify]
    split
    · rw [Option.map_map]
      exact congrArg (Option.map · _) (funext keeps)
    · rfl

theorem Change.chain_eq {arena : Scopes} {scopes : Array Scope} (change : arena.Change scopes)
    {id : ScopeId} (bound : id < arena.scopes.size) : chain scopes id = chain arena.scopes id :=
  chain_congr fun _ least => change.parent_eq (Nat.lt_of_le_of_lt least bound)

theorem Change.parent_new {arena : Scopes} {scopes : Array Scope} (change : arena.Change scopes)
    {id : ScopeId} {scope : Scope} (isNew : arena.scopes.size ≤ id) (found : scopes[id]? = some scope) :
    scope.parent = some arena.current := by
  have inside := (Array.getElem?_eq_some_iff.mp found).1
  cases change with
  | same => exact absurd inside (Nat.not_lt.mpr isNew)
  | added =>
    rw [Array.size_push] at inside
    rw [show id = arena.scopes.size from Nat.le_antisymm (Nat.le_of_lt_succ inside) isNew,
      Array.getElem?_push_size] at found
    cases found
    rfl
  | named =>
    rw [Array.size_modify] at inside
    exact absurd inside (Nat.not_lt.mpr isNew)

theorem Rooted.apply_current {arena : Scopes} (rooted : arena.Rooted) {action : Action}
    (allowed : arena.Allows action) :
    (arena.apply action).current < (arena.apply action).scopes.size := by
  have grows := (arena.apply_change action).size_le
  have inside := Nat.lt_of_lt_of_le rooted.current grows
  cases action with
  | push => exact (Array.size_push _).symm ▸ Nat.lt_succ_self _
  | addChild => exact inside
  | enter scope => exact allowed
  | pop =>
    have found := Array.getElem?_eq_getElem rooted.current
    rw [apply, perform?, Option.getD_some, pop_scopes, pop, found, Option.bind_some]
    by_cases isRoot : arena.current = 0
    · have free := rooted.root
      rw [← isRoot, found, Option.map_some, Option.some.injEq] at free
      rw [free]
      exact rooted.current
    · obtain ⟨parent, before, isParent⟩ := rooted.parent _ _ found isRoot
      rw [isParent]
      exact Nat.lt_trans before rooted.current
  | declare name symbol =>
    have same : (arena.apply (.declare name symbol)).current = arena.current := by
      rw [apply, perform?, declare_eq]
      split <;> rfl
    exact same.symm ▸ inside
  | declareType name ty =>
    have same : (arena.apply (.declareType name ty)).current = arena.current := by
      rw [apply, perform?, declareType?_eq]
      split <;> rfl
    exact same.symm ▸ inside

theorem Rooted.apply {arena : Scopes} (rooted : arena.Rooted) {action : Action}
    (allowed : arena.Allows action) : (arena.apply action).Rooted := by
  have change := arena.apply_change action
  refine ⟨rooted.apply_current allowed, ?_, ?_⟩
  · rw [change.parent_eq (Nat.zero_lt_of_lt rooted.current)]
    exact rooted.root
  · intro id scope found isChild
    by_cases bound : id < arena.scopes.size
    · have same := change.parent_eq bound
      rw [found, Array.getElem?_eq_getElem bound, Option.map_some, Option.map_some,
        Option.some.injEq] at same
      rw [same]
      exact rooted.parent id _ (Array.getElem?_eq_getElem bound) isChild
    · have isNew := Nat.le_of_not_lt bound
      exact ⟨arena.current, Nat.lt_of_lt_of_le rooted.current isNew, change.parent_new isNew found⟩

/-! ### The names after one action -/

namespace Space

variable {α : Type} (space : Space α)

theorem made_of_silent {arena : Scopes} {action : Action} (silent : space.declares? action = none) :
    space.made arena action = [] := by
  rw [made, silent]
  split
  · contradiction
  · rfl

theorem ownAt_push {arena : Scopes} {current : ScopeId}
    (fresh : ∀ name, space.own ⟨some arena.current, ∅, ∅⟩ name = none) (id : ScopeId)
    (name : String) :
    space.ownAt ⟨arena.scopes.push ⟨some arena.current, ∅, ∅⟩, current⟩ id name =
      space.ownAt arena id name := by
  rw [ownAt, Array.getElem?_push]
  split
  case isTrue isNew =>
    subst isNew
    rw [ownAt, Array.getElem?_eq_none (Nat.le_refl _)]
    exact fresh name
  case isFalse => rfl

theorem ownAt_move {arena : Scopes} {action : Action}
    (fresh : ∀ name, space.own ⟨some arena.current, ∅, ∅⟩ name = none) (moves : action.Moves)
    (id : ScopeId) (name : String) :
    space.ownAt (arena.apply action) id name = space.ownAt arena id name := by
  cases action with
  | push | addChild => exact space.ownAt_push fresh id name
  | pop => simp only [ownAt, apply, perform?, Option.getD_some, pop_scopes]
  | enter scope => rfl
  | declare | declareType => exact moves.elim

theorem ownAt_modify {arena : Scopes} {add : Scope → Scope} {name : String} {value : α}
    (adds : ∀ scope other, space.own (add scope) other =
      if name = other then some value else space.own scope other)
    (bound : arena.current < arena.scopes.size)
    (free : space.ownAt arena arena.current name = none) (id : ScopeId) (other : String) :
    space.ownAt { arena with scopes := arena.scopes.modify arena.current add } id other =
      (space.ownAt arena id other).or (first? [⟨arena.current, name, value⟩] id other) := by
  rw [ownAt, Array.getElem?_modify]
  split
  case isTrue isCurrent =>
    subst isCurrent
    have found := Array.getElem?_eq_getElem bound
    rw [ownAt, found, Option.bind_some] at free ⊢
    rw [Option.map_some, Option.bind_some, adds]
    by_cases isName : name = other
    · subst isName
      simp [free, first?]
    · simp [isName, first?]
  case isFalse notCurrent => simp [ownAt, first?, notCurrent]

theorem ownAt_modify_other {arena : Scopes} {add : Scope → Scope}
    (keeps : ∀ scope name, space.own (add scope) name = space.own scope name) (id : ScopeId)
    (name : String) :
    space.ownAt { arena with scopes := arena.scopes.modify arena.current add } id name =
      space.ownAt arena id name := by
  rw [ownAt, Array.getElem?_modify]
  split
  case isTrue isCurrent =>
    subst isCurrent
    rw [ownAt]
    cases arena.scopes[arena.current]? with
    | none => rfl
    | some scope => exact keeps scope name
  case isFalse => rfl

end Space

theorem symbolSpace_apply {arena : Scopes} (bound : arena.current < arena.scopes.size)
    (action : Action) (id : ScopeId) (name : String) :
    symbolSpace.ownAt (arena.apply action) id name =
      (symbolSpace.ownAt arena id name).or (first? (symbolSpace.made arena action) id name) := by
  cases action with
  | push | addChild | pop | enter =>
    rw [Space.made_of_silent _ rfl, first?_nil, Option.or_none]
    refine Space.ownAt_move _ (fun _ => Std.HashMap.getElem?_empty) ?_ id name
    trivial
  | declare other symbol =>
    rw [Space.made, apply, perform?, declare_eq]
    cases own : symbolSpace.ownAt arena arena.current other with
    | none =>
      refine Space.ownAt_modify _ (fun scope name => ?_) bound own id name
      simp [symbolSpace, Std.HashMap.getElem?_insert]
    | some previous => exact Option.or_none.symm
  | declareType other ty =>
    rw [Space.made_of_silent _ rfl, first?_nil, Option.or_none, apply, perform?, declareType?_eq]
    cases typeSpace.ownAt arena arena.current other with
    | none =>
      refine Space.ownAt_modify_other _ ?_ id name
      intro scope name
      rfl
    | some previous => rfl

theorem typeSpace_apply {arena : Scopes} (bound : arena.current < arena.scopes.size)
    (action : Action) (id : ScopeId) (name : String) :
    typeSpace.ownAt (arena.apply action) id name =
      (typeSpace.ownAt arena id name).or (first? (typeSpace.made arena action) id name) := by
  cases action with
  | push | addChild | pop | enter =>
    rw [Space.made_of_silent _ rfl, first?_nil, Option.or_none]
    refine Space.ownAt_move _ (fun _ => Std.HashMap.getElem?_empty) ?_ id name
    trivial
  | declare other symbol =>
    rw [Space.made_of_silent _ rfl, first?_nil, Option.or_none, apply, perform?, declare_eq]
    cases symbolSpace.ownAt arena arena.current other with
    | none =>
      refine Space.ownAt_modify_other _ ?_ id name
      intro scope name
      rfl
    | some previous => rfl
  | declareType other ty =>
    rw [Space.made, apply, perform?, declareType?_eq]
    cases own : typeSpace.ownAt arena arena.current other with
    | none =>
      refine Space.ownAt_modify _ (fun scope name => ?_) bound own id name
      simp [typeSpace, Std.HashMap.getElem?_insert]
    | some previous => exact Option.or_none.symm

theorem symbolSpace_sound : symbolSpace.Sound where
  initial id name := by
    rw [Space.ownAt]
    cases found : initial.scopes[id]? with
    | none => rfl
    | some scope =>
      obtain ⟨bound, rfl⟩ := Array.getElem?_eq_some_iff.mp found
      simp [initial, symbolSpace]
  apply id name bound := symbolSpace_apply bound _ id name

theorem typeSpace_sound : typeSpace.Sound where
  initial id name := by
    rw [Space.ownAt]
    cases found : initial.scopes[id]? with
    | none => rfl
    | some scope =>
      obtain ⟨bound, rfl⟩ := Array.getElem?_eq_some_iff.mp found
      simp [initial, typeSpace]
  apply id name bound := typeSpace_apply bound _ id name

/-! ### Whole histories -/

theorem Rooted.run {arena : Scopes} (rooted : arena.Rooted) {actions : List Action}
    (allowed : arena.AllowsAll actions) : (arena.run actions).Rooted := by
  induction actions generalizing arena with
  | nil => exact rooted
  | cons action rest ih => exact ih (rooted.apply allowed.1) allowed.2

namespace Space

variable {α : Type} {space : Space α}

theorem Sound.run (sound : space.Sound) {arena : Scopes} (rooted : arena.Rooted)
    {actions : List Action} (allowed : arena.AllowsAll actions) (id : ScopeId) (name : String) :
    space.ownAt (arena.run actions) id name =
      (space.ownAt arena id name).or (first? (space.log arena actions) id name) := by
  induction actions generalizing arena with
  | nil => exact Option.or_none.symm
  | cons action rest ih =>
    rw [Scopes.run, ih (rooted.apply allowed.1) allowed.2, sound.apply id name rooted.current, log,
      first?_append, Option.or_assoc]

theorem Sound.run_initial (sound : space.Sound) {actions : List Action}
    (allowed : Scopes.initial.AllowsAll actions) (id : ScopeId) (name : String) :
    space.ownAt (Scopes.initial.run actions) id name =
      first? (space.log Scopes.initial actions) id name := by
  rw [sound.run initial_rooted allowed, sound.initial, Option.none_or]

theorem visible_eq (space : Space α) (arena : Scopes) (id : ScopeId) (name : String) :
    space.visible arena id name =
      (chain arena.scopes id).findSome? fun id => space.ownAt arena id name :=
  searchFrom?_eq arena.scopes _ id

theorem findSome?_assign (own : ScopeId → Option α) (current : ScopeId) (value : α)
    (ids : List ScopeId) :
    (ids.findSome? fun id => (own id).or (if current = id then some value else none)) =
        ids.findSome? own ∨
      ∃ nearer farther, ids = nearer ++ current :: farther ∧
        (∀ inner ∈ nearer, own inner = none) ∧
        (ids.findSome? fun id => (own id).or (if current = id then some value else none)) =
          some value := by
  induction ids with
  | nil => exact .inl rfl
  | cons id rest ih =>
    rw [List.findSome?_cons, List.findSome?_cons]
    cases isOwn : own id with
    | some found => exact .inl rfl
    | none =>
      by_cases isCurrent : current = id
      · subst isCurrent
        exact .inr ⟨[], rest, rfl, nofun, by simp⟩
      · simp only [isCurrent, if_false, Option.or_none]
        rcases ih with same | ⟨nearer, farther, split, free, isValue⟩
        · exact .inl same
        · refine .inr ⟨id :: nearer, farther, by rw [split]; rfl, ?_, isValue⟩
          intro inner member
          rcases List.mem_cons.mp member with rfl | member
          · exact isOwn
          · exact free inner member

/-- What an action changes of the names that are visible from a scope: nothing, or one name, which a
successful declaration gives the scope or one that encloses it and no nearer scope has. -/
def Frame (space : Space α) (arena : Scopes) (action : Action) (id : ScopeId) : Prop :=
  ∀ name, space.visible (arena.apply action) id name = space.visible arena id name ∨
    ∃ value nearer farther, space.declares? action = some (name, value) ∧
      (arena.perform? action).isSome ∧
      chain arena.scopes id = nearer ++ arena.current :: farther ∧
      (∀ inner ∈ nearer, space.ownAt arena inner name = none) ∧
      space.visible (arena.apply action) id name = some value

theorem first?_singleton {scope id : ScopeId} {name other : String} {value : α} :
    first? [⟨scope, name, value⟩] id other =
      if scope = id ∧ name = other then some value else none := by
  by_cases isEntry : scope = id ∧ name = other <;> simp [first?, isEntry]

theorem made_cases (space : Space α) (arena : Scopes) (action : Action) :
    space.made arena action = [] ∨ ∃ name value, space.declares? action = some (name, value) ∧
      (arena.perform? action).isSome ∧ space.made arena action = [⟨arena.current, name, value⟩] := by
  rw [made]
  split
  case h_1 applied declares => exact .inr ⟨_, _, declares, by rw [applied]; rfl, rfl⟩
  case h_2 => exact .inl rfl

theorem Sound.frame (sound : space.Sound) {arena : Scopes} (rooted : arena.Rooted) (action : Action)
    {id : ScopeId} (bound : id < arena.scopes.size) : space.Frame arena action id := by
  intro name
  have onward (other : ScopeId) : space.ownAt (arena.apply action) other name = _ :=
    sound.apply other name rooted.current
  have same := (arena.apply_change action).chain_eq bound
  simp only [visible_eq, same, onward]
  rcases space.made_cases arena action with isNone | ⟨declared, value, declares, accepted, isMade⟩
  · simp only [isNone, first?_nil, Option.or_none, true_or]
  simp only [isMade, first?_singleton]
  by_cases isName : declared = name
  case neg => simp only [isName, and_false, if_false, Option.or_none, true_or]
  subst isName
  simp only [and_true]
  rcases findSome?_assign (space.ownAt arena · declared) arena.current value (chain arena.scopes id)
    with same | ⟨nearer, farther, split, free, found⟩
  · exact .inl same
  · exact .inr ⟨value, nearer, farther, declares, accepted, split, free, found⟩

end Space

/-! ### The laws -/

def parent? (arena : Scopes) (id : ScopeId) : Option ScopeId := (arena.scopes[id]?).bind Scope.parent

theorem parent?_addChild (arena : Scopes) (id : ScopeId) :
    arena.addChild.parent? id =
      if id = arena.scopes.size then some arena.current else arena.parent? id := by
  obtain ⟨scopes, current⟩ := arena
  simp only [parent?, addChild, Array.getElem?_push]
  split <;> rfl

theorem pop_eq (arena : Scopes) :
    arena.pop = arena.enter ((arena.parent? arena.current).getD arena.current) := by
  rw [pop, parent?]
  cases (arena.scopes[arena.current]?).bind Scope.parent <;> rfl

/-- An arena with the declarations that were made in it, in order. -/
structure Lawful (arena : Scopes) (symbols : List (Entry SymbolId)) (types : List (Entry Ty)) :
    Prop where
  rooted : arena.Rooted
  child : ∀ id, arena.addChild.parent? id =
    if id = arena.scopes.size then some arena.current else arena.parent? id
  push : arena.push = arena.addChild.enter arena.scopes.size
  pop : arena.pop = arena.enter ((arena.parent? arena.current).getD arena.current)
  outward : ∀ id < arena.scopes.size, (chain arena.scopes id).getLast? = some 0
  lookup : ∀ id < arena.scopes.size, ∀ name, (arena.enter id).lookup? name =
    (chain arena.scopes id).findSome? (first? symbols · name)
  lookupType : ∀ id < arena.scopes.size, ∀ name, (arena.enter id).lookupType? name =
    (chain arena.scopes id).findSome? (first? types · name)
  declare : ∀ name symbol previous, arena.declare name symbol = .error previous ↔
    first? symbols arena.current name = some previous
  declareType : ∀ name ty, arena.declareType? name ty = none ↔
    ∃ previous, first? types arena.current name = some previous
  kept : ∀ action, arena.perform? action = none → arena.apply action = arena
  frame : ∀ action, ∀ id < arena.scopes.size,
    symbolSpace.Frame arena action id ∧ typeSpace.Frame arena action id

/-- The scopes form a tree under any history. A new scope is a child of the current one, and leaving a
scope leads to its parent. A name means what was first declared under it in the
nearest scope that has it, a declaration is refused if and only if the current scope has the name, and
an action changes at most one name of what a scope sees. -/
theorem run_lawful (actions : List Action) (allowed : initial.AllowsAll actions) :
    (initial.run actions).Lawful (symbolSpace.log initial actions)
      (typeSpace.log initial actions) := by
  have rooted := initial_rooted.run allowed
  have symbols := symbolSpace_sound.run_initial allowed
  have types := typeSpace_sound.run_initial allowed
  constructor
  case rooted => exact rooted
  case child => exact parent?_addChild _
  case push => rfl
  case pop => exact pop_eq _
  case outward => exact fun id bound => rooted.chain_getLast? bound
  case lookup =>
    intro id bound name
    simp only [← symbols]
    exact symbolSpace.visible_eq (initial.run actions) id name
  case lookupType =>
    intro id bound name
    simp only [← types]
    exact typeSpace.visible_eq (initial.run actions) id name
  case declare =>
    intro name symbol previous
    rw [← symbols, declare_eq]
    cases symbolSpace.ownAt (initial.run actions) (initial.run actions).current name <;> simp
  case declareType =>
    intro name ty
    rw [← types, declareType?_eq]
    cases typeSpace.ownAt (initial.run actions) (initial.run actions).current name <;> simp
  case kept =>
    intro action refused
    rw [apply, refused, Option.getD_none]
  case frame =>
    intro action id bound
    exact ⟨symbolSpace_sound.frame rooted action bound, typeSpace_sound.frame rooted action bound⟩

/-- Two scopes inside the root, each with a name that hides the root's, and a declaration that is
refused. -/
def shadowing : List Action :=
  [.declare "x" 0, .push, .declare "x" 1, .pop, .addChild, .enter 2, .declareType "x" .number,
    .declare "x" 2, .declare "x" 3]

theorem run_lawful_shadowing :
    initial.AllowsAll shadowing ∧
      (initial.run shadowing).Lawful (symbolSpace.log initial shadowing)
        (typeSpace.log initial shadowing) ∧
      ((initial.run shadowing).enter 1).lookup? "x" = some 1 ∧
      ((initial.run shadowing).enter 2).lookup? "x" = some 2 := by
  have allowed : initial.AllowsAll shadowing := by cbv
  exact ⟨allowed, run_lawful shadowing allowed, by cbv, by cbv⟩

end Scopes

end LetChain
