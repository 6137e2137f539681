import LetChain.Proofs.Compiled.Session

/-! Names and handles determine each other. Whatever is asked of a table that starts out empty, its
handles count the names in the order in which they were first asked for, and none is ever given to
another name. -/

namespace LetChain.NameTable

/-- What can be asked of a table. -/
inductive Request where
  | intern (name : String)
  | register

def serve (table : NameTable) : Request → NameTable
  | .intern name => (table.intern name).1
  | .register => table.register

def serveAll (table : NameTable) (requests : List Request) : NameTable := requests.foldl serve table

/-- The built-in names are asked for only before any other. -/
def askedAfter (names : List String) : Request → List String
  | .intern name => names ++ [name]
  | .register => if names = [] then builtinNames else names

/-- All names that requests to an empty table ask for, in order and with repetitions. -/
def asked (requests : List Request) : List String := requests.foldl askedAfter []

/-- Looking up a handle and looking up a name undo each other. -/
def Inverse (table : NameTable) : Prop :=
  ∀ name handle, table.handle? name = some handle ↔ table.name? handle = some name

section

variable {table : NameTable} {name : String} {handle : Nat}

theorem insert_known (known : table.handle? name = some handle) : table.insert name = table := by
  have known : table.handles[name]? = some handle := known
  rw [insert, if_pos]
  rw [Std.HashMap.contains_eq_isSome_getElem?, known, Option.isSome_some]

theorem insert_unknown (unknown : table.handle? name = none) :
    table.insert name = ⟨table.names.push name, table.handles.insert name (table.size + 1)⟩ := by
  have unknown : table.handles[name]? = none := unknown
  rw [insert, if_neg]
  · rfl
  · rw [Std.HashMap.contains_eq_isSome_getElem?, unknown, Option.isSome_none]
    exact Bool.false_ne_true

theorem name?_isSome (table : NameTable) (handle : Nat) :
    (table.name? handle).isSome ↔ 1 ≤ handle ∧ handle ≤ table.size := by
  cases handle with
  | zero => simp [name?]
  | succ index =>
    have bound : table.names[index]?.isSome ↔ index < table.size := by simp [size]
    rw [name?, bound]
    omega

theorem name?_push {handles : Std.HashMap String Nat} :
    name? ⟨table.names.push name, handles⟩ handle =
      if handle = table.size + 1 then some name else table.name? handle := by
  cases handle with
  | zero => simp [name?]
  | succ index => simp [name?, size, Array.getElem?_push]

theorem handle?_insert {names : Array String} {other : String} :
    handle? ⟨names, table.handles.insert name handle⟩ other =
      if name = other then some handle else table.handle? other := by
  simp [handle?, Std.HashMap.getElem?_insert]

theorem inverse_empty : Inverse empty := by
  intro name handle
  have noName : empty.name? handle = none := by cases handle <;> rfl
  have noHandle : empty.handle? name = none := by simp [handle?, empty]
  rw [noName, noHandle]
  simp

theorem Inverse.insert (inverse : Inverse table) (name : String) : Inverse (table.insert name) := by
  cases found : table.handle? name with
  | some handle => rwa [insert_known found]
  | none =>
    intro other handle
    rw [insert_unknown found, handle?_insert, name?_push]
    have beyond : table.name? (table.size + 1) = none := by simp [name?, size]
    by_cases isNew : name = other
    · subst isNew
      rw [if_pos rfl]
      split
      · simp_all
      · rw [← inverse name handle, found]
        simp only [Option.some.injEq, reduceCtorEq, iff_false]
        omega
    · rw [if_neg isNew, inverse other handle]
      split
      · simp_all
      · rfl

theorem Inverse.mem_iff (inverse : Inverse table) :
    name ∈ table.names.toList ↔ ∃ handle, table.handle? name = some handle := by
  rw [List.mem_iff_getElem?]
  constructor
  · rintro ⟨index, found⟩
    exact ⟨index + 1, (inverse name (index + 1)).mpr (by simpa [name?] using found)⟩
  · rintro ⟨handle, found⟩
    have isName := (inverse name handle).mp found
    cases handle with
    | zero => cases isName
    | succ index => exact ⟨index, by simpa [name?] using isName⟩

structure Holds (table : NameTable) (names : List String) : Prop where
  inverse : Inverse table
  order : table.names.toList = names.eraseDups

theorem holds_empty : Holds empty [] := ⟨inverse_empty, rfl⟩

theorem Holds.insert {names : List String} (holds : Holds table names) (name : String) :
    Holds (table.insert name) (names ++ [name]) := by
  refine ⟨holds.inverse.insert name, ?_⟩
  have known : name ∈ table.names.toList ↔ _ := holds.inverse.mem_iff
  rw [holds.order, List.mem_eraseDups] at known
  rw [List.eraseDups_append]
  cases found : table.handle? name with
  | some handle =>
    have member : name ∈ names := known.mpr ⟨handle, found⟩
    rw [insert_known found, holds.order]
    simp [List.removeAll, member]
  | none =>
    have new : name ∉ names := fun member => by
      obtain ⟨handle, isHandle⟩ := known.mp member
      rw [found] at isHandle
      cases isHandle
    rw [insert_unknown found]
    simp [List.removeAll, new, holds.order, List.eraseDups_cons]

theorem Holds.insertAll {names : List String} (holds : Holds table names) (more : List String) :
    Holds (table.insertAll more) (names ++ more) := by
  induction more generalizing table names with
  | nil => simpa [NameTable.insertAll] using holds
  | cons name rest ih =>
    have inserted := ih (holds.insert name)
    rwa [List.append_assoc] at inserted

theorem Holds.isEmpty_iff {names : List String} (holds : Holds table names) :
    table.names.isEmpty = true ↔ names = [] := by
  rw [Array.isEmpty_iff, ← Array.toList_eq_nil_iff, holds.order]
  cases names with
  | nil => simp
  | cons name rest => simp [List.eraseDups_cons]

theorem Holds.serve {names : List String} (holds : Holds table names) (request : Request) :
    Holds (table.serve request) (askedAfter names request) := by
  cases request with
  | intern name => exact holds.insert name
  | register =>
    rw [NameTable.serve, register, askedAfter]
    by_cases unused : names = []
    · rw [if_pos (holds.isEmpty_iff.mpr unused), if_pos unused]
      subst unused
      exact holds.insertAll builtinNames
    · rw [if_neg fun isEmpty => unused (holds.isEmpty_iff.mp isEmpty), if_neg unused]
      exact holds

theorem Holds.serveAll {names : List String} (holds : Holds table names) (requests : List Request) :
    Holds (table.serveAll requests) (requests.foldl askedAfter names) := by
  induction requests generalizing table names with
  | nil => exact holds
  | cons request rest ih => exact ih (holds.serve request)

theorem extends_serve (table : NameTable) (request : Request) : Extends table (table.serve request) := by
  cases request with
  | intern name => exact extends_insert table name
  | register => exact extends_register table

theorem extends_serveAll (table : NameTable) (requests : List Request) :
    Extends table (table.serveAll requests) := by
  induction requests generalizing table with
  | nil => exact .refl table
  | cons request rest ih => exact (extends_serve table request).trans (ih (table.serve request))

theorem handle?_intern (table : NameTable) (name : String) :
    (table.intern name).1.handle? name = some (table.intern name).2 := by
  have known : ∃ handle, (table.insert name).handle? name = some handle := by
    cases found : table.handle? name with
    | some handle => exact ⟨handle, by rw [insert_known found, found]⟩
    | none => exact ⟨table.size + 1, by rw [insert_unknown found, handle?_insert, if_pos rfl]⟩
  obtain ⟨handle, found⟩ := known
  simp [intern, found]

theorem intern_known (known : table.handle? name = some handle) :
    table.intern name = (table, handle) := by
  simp [intern, insert_known known, known]

theorem Holds.intern_eq_iff {names : List String} (holds : Holds table names) (name : String)
    (between : List Request) (name' : String) :
    (table.intern name).2 = (((table.intern name).1.serveAll between).intern name').2 ↔
      name = name' := by
  let middle := (table.intern name).1.serveAll between
  have inverse : Inverse (middle.insert name') :=
    (((holds.insert name).serveAll between).insert name').inverse
  have known : middle.handle? name = some (table.intern name).2 :=
    (extends_serveAll _ between).handle? name _ (handle?_intern table name)
  constructor
  · intro same
    have first := (inverse name _).mp ((extends_insert middle name').handle? name _ known)
    have second := (inverse name' _).mp (handle?_intern middle name')
    rw [← same, first] at second
    exact Option.some.inj second
  · rintro rfl
    rw [intern_known known]

/-- The laws of a table that was asked for some names. -/
structure Lawful (table : NameTable) (names : List String) : Prop where
  order : table.names.toList = names.eraseDups
  inverse : Inverse table
  handles : ∀ handle, (table.name? handle).isSome ↔ 1 ≤ handle ∧ handle ≤ table.size
  name?_intern : ∀ name, (table.intern name).1.name? (table.intern name).2 = some name
  intern_eq_iff : ∀ name between name', (table.intern name).2 =
    (((table.intern name).1.serveAll between).intern name').2 ↔ name = name'
  intern_known : ∀ name handle, table.handle? name = some handle → table.intern name = (table, handle)
  kept : ∀ later handle name, table.name? handle = some name →
    (table.serveAll later).name? handle = some name
  register_unused : table.size = 0 → table.register.names.toList = builtinNames ∧
    builtinNames.map table.register.handle? = [some 1, some 2, some 3, some 4, some 5]
  register_used : table.size ≠ 0 → table.register = table

theorem Holds.register_unused {names : List String} (holds : Holds table names)
    (unused : table.size = 0) : table.register.names.toList = builtinNames ∧
      builtinNames.map table.register.handle? = [some 1, some 2, some 3, some 4, some 5] := by
  have isEmpty : names = [] := by
    rw [← holds.isEmpty_iff, Array.isEmpty_iff_size_eq_zero]
    exact unused
  have registered : Holds table.register builtinNames := by
    simpa [NameTable.serve, askedAfter, isEmpty] using holds.serve .register
  have order : table.register.names.toList = builtinNames := by
    rw [registered.order]
    decide
  have handle {index : Nat} {name : String} (isName : builtinNames[index]? = some name) :
      table.register.handle? name = some (index + 1) := by
    rw [registered.inverse, name?, ← Array.getElem?_toList, order, isName]
  refine ⟨order, ?_⟩
  simp only [builtinNames, List.map_cons, List.map_nil]
  rw [@handle 0 _ rfl, @handle 1 _ rfl, @handle 2 _ rfl, @handle 3 _ rfl, @handle 4 _ rfl]

end

/-- Names and handles are in bijection after any requests. -/
theorem serveAll_lawful (requests : List Request) :
    (empty.serveAll requests).Lawful (asked requests) := by
  have holds : Holds (empty.serveAll requests) (asked requests) := holds_empty.serveAll requests
  constructor
  case order => exact holds.order
  case inverse => exact holds.inverse
  case handles => exact name?_isSome _
  case name?_intern => exact fun name => (holds.inverse.insert name _ _).mp (handle?_intern _ name)
  case intern_eq_iff => exact holds.intern_eq_iff
  case intern_known => exact fun _ _ => NameTable.intern_known
  case kept => exact fun later handle name => (extends_serveAll _ later).name? handle name
  case register_unused => exact holds.register_unused
  case register_used =>
    intro used
    rw [register, if_neg]
    rwa [Array.isEmpty_iff_size_eq_zero]

/-- A table that was used before its built-in names could be registered. -/
theorem serveAll_lawful_late_register :
    let table := empty.serveAll [.intern "x", .register, .intern "Main", .intern "x"]
    table.names.toList = ["x", "Main"] ∧ table.intern "x" = (table, 1) ∧
      (table.serveAll [.intern "y"]).name? 2 = some "Main" ∧ table.register = table ∧
      (empty.serveAll []).register.names.toList = builtinNames := by
  intro table
  have lawful : table.Lawful _ := serveAll_lawful _
  have names : table.names.toList = ["x", "Main"] := lawful.order.trans (by decide)
  have isName {index : Nat} : table.name? (index + 1) = ["x", "Main"][index]? := by
    rw [name?, ← Array.getElem?_toList, names]
  have used : table.size ≠ 0 := by
    rw [size, ← Array.length_toList, names]
    decide
  refine ⟨names, ?_, lawful.kept _ 2 "Main" isName, lawful.register_used used, ?_⟩
  · exact lawful.intern_known "x" 1 ((lawful.inverse "x" 1).mpr isName)
  · exact ((serveAll_lawful []).register_unused rfl).1

end LetChain.NameTable
