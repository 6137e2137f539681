import LetChain.Command.Files
import LetChain.Command.Run
import LetChain.Proofs.Compiled.Listing
import LetChain.Proofs.Stateful

/-! What a compilation does to the files. It writes nothing until the source is compiled, and then one
file, to which the path of the source with the extension of a listing leads. -/

namespace LetChain

/-! ### File systems -/

/-- What is known of a file system: the file that a path leads to, and what the files hold. Several
paths may lead to one file, and a path that leads to a file goes on doing so. A file that was created
is empty, and only the file that is created or written changes. A write that fails may leave anything
in its file. -/
structure FileSystem (World Handle File : Type) where
  disk : Disk (StateM World) Handle
  leads : World → String → Option File
  holds : World → File → Option ByteArray
  opened : Handle → File
  read_keeps (world : World) (path : String) : ((disk.read path).run world).2 = world
  read_ok {world : World} {path : String} {content : ByteArray} :
    ((disk.read path).run world).1 = .ok content →
      ∃ file, leads world path = some file ∧ holds world file = some content
  createDirs_keeps (world : World) (path : String) :
    let after := ((disk.createDirs path).run world).2
    (∀ file, holds after file = holds world file) ∧
      ∀ path file, leads world path = some file → leads after path = some file
  create_error {world after : World} {path : String} {error : FileError} :
    (disk.create path).run world = (.error error, after) → after = world
  create_ok {world after : World} {path : String} {handle : Handle} :
    (disk.create path).run world = (.ok handle, after) →
      leads after path = some (opened handle) ∧ holds after (opened handle) = some .empty ∧
        (∀ file, file ≠ opened handle → holds after file = holds world file) ∧
        ∀ path file, leads world path = some file → leads after path = some file
  write_keeps {world : World} {handle : Handle} (text : String) :
    holds world (opened handle) = some .empty →
      let after := ((disk.write handle text).run world).2
      (∀ file, file ≠ opened handle → holds after file = holds world file) ∧
        ∀ path file, leads world path = some file → leads after path = some file
  write_ok {world after : World} {handle : Handle} {text : String} :
    holds world (opened handle) = some .empty →
      (disk.write handle text).run world = (.ok (), after) →
        holds after (opened handle) = some text.toUTF8

namespace FileSystem

variable {World Handle File : Type} (system : FileSystem World Handle File)

/-- What the file holds that a path leads to. -/
def content? (world : World) (path : String) : Option ByteArray :=
  (system.leads world path).bind (system.holds world)

/-- All files hold what they held, and paths lead to the files they led to. -/
structure Keeps (world after : World) : Prop where
  holds (file : File) : system.holds after file = system.holds world file
  leads (path : String) (file : File) :
    system.leads world path = some file → system.leads after path = some file

structure KeepsBut (file : File) (world after : World) : Prop where
  holds (other : File) : other ≠ file → system.holds after other = system.holds world other
  leads (path : String) (other : File) :
    system.leads world path = some other → system.leads after path = some other

variable {system} {world middle after : World} {file : File} {path : String}

theorem Keeps.refl (world : World) : system.Keeps world world := ⟨fun _ => rfl, fun _ _ found => found⟩

theorem KeepsBut.trans (first : system.KeepsBut file world middle)
    (second : system.KeepsBut file middle after) : system.KeepsBut file world after :=
  ⟨fun other differs => (second.holds other differs).trans (first.holds other differs),
    fun path other found => second.leads path other (first.leads path other found)⟩

theorem Keeps.content? (keeps : system.Keeps world after)
    (found : system.leads world path = some file) :
    system.content? after path = system.content? world path := by
  rw [FileSystem.content?, FileSystem.content?, keeps.leads path file found, found,
    Option.bind_some, Option.bind_some, keeps.holds]

theorem KeepsBut.content? {other : File} (keeps : system.KeepsBut file world after)
    (found : system.leads world path = some other) (differs : other ≠ file) :
    system.content? after path = system.content? world path := by
  rw [FileSystem.content?, FileSystem.content?, keeps.leads path other found, found,
    Option.bind_some, Option.bind_some, keeps.holds other differs]

end FileSystem

/-! ### Files without links -/

namespace Path

namespace Proper

variable {name : String}

end Proper

end Path

namespace Files

variable {files middle after : Files} {dir place : Place} {name path : String}
  {segments : List String}

def content? (files : Files) (place : Place) : Option ByteArray :=
  (files.lookup? place).bind Entry.content?

/-- The place of the file that a path leads to. -/
def leads (files : Files) (path : String) : Option Place :=
  (files.target path).toOption.bind fun target =>
    if target.trailing then none else (files.content? target.place).map fun _ => target.place

theorem leads_eq_some_iff : files.leads path = some place ↔
    ∃ target content, files.target path = .ok target ∧ target.trailing = false ∧
      target.place = place ∧ files.lookup? place = some (.file content) := by
  rw [leads]
  cases files.target path with
  | error error => simp [Except.toOption]
  | ok target =>
    cases trailing : target.trailing with
    | true => simp [Except.toOption, trailing]
    | false =>
      simp only [Except.toOption, Option.bind_some, trailing, Bool.false_eq_true, if_false,
        Option.map_eq_some_iff, content?, Option.bind_eq_some_iff, Except.ok.injEq]
      constructor
      · rintro ⟨content, ⟨entry, isEntry, isContent⟩, rfl⟩
        cases entry with
        | dir => cases isContent
        | file => exact ⟨target, _, rfl, trailing, rfl, isEntry⟩
      · rintro ⟨_, content, rfl, -, rfl, isFile⟩
        exact ⟨content, ⟨_, isFile, rfl⟩, rfl⟩

theorem entry?_put (files : Files) (place other : Place) (entry : Entry) :
    entry? (files.put place entry) other =
      if other = place then some entry else files.entry? other := by
  obtain ⟨entries⟩ := files
  simp only [put, entry?, List.lookup_cons]
  by_cases same : other = place
  · simp [same]
  · rw [if_neg same, beq_eq_false_iff_ne.mpr same]
    dsimp only
    induction entries with
    | nil => rfl
    | cons first rest ih =>
      obtain ⟨here, entry⟩ := first
      by_cases replaced : here = place
      · rw [List.filter_cons_of_neg (by simpa using replaced), ih, List.lookup_cons,
          beq_eq_false_iff_ne.mpr (replaced ▸ same)]
      · rw [List.filter_cons_of_pos (by simpa using replaced), List.lookup_cons, List.lookup_cons, ih]

theorem lookup?_put (free : files.lookup? place ≠ some .dir) (entry : Entry) (other : Place) :
    (files.put place entry).lookup? other = if other = place then some entry else files.lookup? other := by
  by_cases always : isAlwaysDir other
  · have differs : other ≠ place := by
      rintro rfl
      exact free (by rw [lookup?, if_pos always])
    rw [lookup?, lookup?, if_pos always, if_neg differs, if_pos always]
  · rw [lookup?, lookup?, if_neg always, entry?_put, if_neg always]

def Grows (files after : Files) : Prop :=
  ∀ place, files.lookup? place = some .dir → after.lookup? place = some .dir

theorem grows_put (free : files.lookup? place ≠ some .dir) (entry : Entry) :
    files.Grows (files.put place entry) := by
  intro other isDir
  rw [lookup?_put free, if_neg]
  · exact isDir
  · rintro rfl
    exact free isDir

theorem Grows.follow (grows : files.Grows after) {result : Place × Option String}
    (followed : files.follow dir segments = .ok result) : after.follow dir segments = .ok result := by
  induction segments generalizing dir with
  | nil => exact followed
  | cons segment rest ih =>
    rw [Files.follow] at followed ⊢
    split_ifs at followed ⊢
    · exact ih followed
    · exact ih followed
    · exact followed
    · split at followed
      · rename_i isDir
        rw [grows _ isDir]
        exact ih followed
      · cases followed
      · cases followed

theorem Grows.target (grows : files.Grows after) {target : Target}
    (found : files.target path = .ok target) : after.target path = .ok target := by
  rw [Files.target] at found ⊢
  split
  · rename_i empty
    rw [if_pos empty] at found
    cases found
  · rename_i nonempty
    rw [if_neg nonempty, Stateful.except_bind_eq_ok] at found
    obtain ⟨result, followed, isTarget⟩ := found
    dsimp only
    rw [grows.follow followed]
    exact isTarget

structure Kept (files after : Files) : Prop where
  grows : files.Grows after
  content? (place : Place) : after.content? place = files.content? place

theorem Kept.refl (files : Files) : files.Kept files := ⟨fun _ isDir => isDir, fun _ => rfl⟩

theorem Kept.trans (first : files.Kept middle) (second : middle.Kept after) : files.Kept after :=
  ⟨fun place isDir => second.grows place (first.grows place isDir),
    fun place => (second.content? place).trans (first.content? place)⟩

theorem Grows.leads (grows : files.Grows after) {place : Place}
    (found : files.leads path = some place) (stays : (after.content? place).isSome) :
    after.leads path = some place := by
  obtain ⟨target, _, isTarget, notTrailing, rfl, -⟩ := leads_eq_some_iff.mp found
  obtain ⟨content, isContent⟩ := Option.isSome_iff_exists.mp stays
  rw [Files.leads, grows.target isTarget]
  simp [Except.toOption, notTrailing, isContent]

theorem isSome_of_leads (found : files.leads path = some place) : (files.content? place).isSome := by
  obtain ⟨_, _, -, -, -, isFile⟩ := leads_eq_some_iff.mp found
  rw [content?, isFile]
  rfl

theorem Kept.leads (kept : files.Kept after) (found : files.leads path = some place) :
    after.leads path = some place :=
  kept.grows.leads found (kept.content? place ▸ isSome_of_leads found)

theorem makeDir_kept (made : files.makeDir path = .ok after) : files.Kept after := by
  rw [makeDir, Stateful.except_bind_eq_ok] at made
  obtain ⟨target, -, made⟩ := made
  split at made
  · cases made
  · rename_i missing
    cases made
    have free : files.lookup? target.place ≠ some .dir := by simp [missing]
    refine ⟨grows_put free _, fun place => ?_⟩
    rw [content?, content?, lookup?_put free]
    split
    · rename_i same
      rw [same, missing]
      rfl
    · rfl

theorem ensureDir_kept (files : Files) (path : String) : files.Kept (files.ensureDir path).2 := by
  unfold ensureDir
  split
  · rename_i made
    exact makeDir_kept made
  · split <;> exact .refl files

theorem createDirs_kept (files : Files) (fuel : Nat) (path : String) :
    files.Kept (files.createDirs fuel path).2 := by
  induction fuel generalizing files path with
  | zero => exact .refl files
  | succ fuel ih =>
    rw [createDirs]
    split
    · exact .refl files
    · have first := files.ensureDir_kept path
      split
      · rename_i made missing
        rw [missing] at first
        split
        · exact first
        · rename_i parent _
          have above := ih made parent
          split
          · rename_i refused
            rw [refused] at above
            exact first.trans above
          · rename_i made
            rw [made] at above
            exact (first.trans above).trans (ensureDir_kept ..)
      · exact first

theorem create_eq_ok (created : files.create path = .ok (place, after)) :
    ∃ target, files.target path = .ok target ∧ target.trailing = false ∧ target.place = place ∧
      files.lookup? place ≠ some .dir ∧ after = files.put place (.file .empty) := by
  rw [create, Stateful.except_bind_eq_ok] at created
  obtain ⟨target, found, created⟩ := created
  split at created
  · cases created
  · rename_i notTrailing
    split at created
    · cases created
    · rename_i free
      cases created
      exact ⟨target, found, Bool.eq_false_iff.mpr notTrailing, rfl, free, rfl⟩

theorem content?_put (free : files.lookup? place ≠ some .dir) (content : ByteArray) (other : Place) :
    (files.put place (.file content)).content? other =
      if other = place then some content else files.content? other := by
  rw [content?, content?, lookup?_put free]
  split <;> rfl

theorem leads_put (free : files.lookup? place ≠ some .dir) {content : ByteArray} {other : Place}
    (found : files.leads path = some other) :
    (files.put place (.file content)).leads path = some other := by
  refine (grows_put free _).leads found ?_
  rw [content?_put free]
  split
  · rfl
  · exact isSome_of_leads found

theorem read_eq_ok {path : String} {content : ByteArray} (ran : files.read path = .ok content) :
    ∃ target, files.target path = .ok target ∧ target.trailing = false ∧
      files.lookup? target.place = some (.file content) := by
  rw [read, Stateful.except_bind_eq_ok] at ran
  obtain ⟨target, found, ran⟩ := ran
  refine ⟨target, found, ?_⟩
  split at ran
  · cases ran
  · cases ran
  · rename_i isFile
    split at ran
    · cases ran
    · rename_i notTrailing
      cases ran
      exact ⟨Bool.eq_false_iff.mpr notTrailing, isFile⟩

theorem ne_dir_of_content? {content : ByteArray} (found : files.content? place = some content) :
    files.lookup? place ≠ some .dir := by
  intro isDir
  rw [content?, isDir] at found
  cases found

theorem disk_create_error {files : Files} {path : String} {error : FileError}
    (refused : files.create path = .error error) :
    (disk.create path).run files = (.error error, files) := by
  simp [disk, StateT.run, modifyGet, MonadStateOf.modifyGet, StateT.modifyGet, refused]
  rfl

theorem disk_create_ok {files after : Files} {path : String} {place : Place}
    (created : files.create path = .ok (place, after)) :
    (disk.create path).run files = (.ok place, after) := by
  simp [disk, StateT.run, modifyGet, MonadStateOf.modifyGet, StateT.modifyGet, created]
  rfl

/-- The files as a file system in which no two places are one file. -/
def system : FileSystem Files Place Place where
  disk := disk
  leads := leads
  holds := content?
  opened place := place
  read_keeps _ _ := rfl
  read_ok {files path content} ran := by
    obtain ⟨target, found, notTrailing, isFile⟩ := read_eq_ok ran
    refine ⟨target.place, leads_eq_some_iff.mpr ⟨target, content, found, notTrailing, rfl, isFile⟩, ?_⟩
    rw [content?, isFile]
    rfl
  createDirs_keeps files path :=
    have kept := files.createDirs_kept (path.length + 1) path
    ⟨kept.content?, fun _ _ found => kept.leads found⟩
  create_error {files after path error} ran := by
    cases created : files.create path with
    | error refused =>
      rw [disk_create_error created] at ran
      exact (congrArg Prod.snd ran).symm
    | ok result =>
      rw [disk_create_ok created] at ran
      cases congrArg Prod.fst ran
  create_ok {files after path place} ran := by
    cases created : files.create path with
    | error refused =>
      rw [disk_create_error created] at ran
      cases congrArg Prod.fst ran
    | ok result =>
      rw [disk_create_ok created] at ran
      obtain ⟨rfl, rfl⟩ : result.1 = place ∧ result.2 = after :=
        ⟨Except.ok.inj (congrArg Prod.fst ran), congrArg Prod.snd ran⟩
      obtain ⟨target, found, notTrailing, isPlace, free, isAfter⟩ := create_eq_ok created
      rw [isAfter]
      refine ⟨?_, ?_, fun other differs => ?_, fun _ _ found => leads_put free found⟩
      · refine leads_eq_some_iff.mpr ⟨target, .empty, (grows_put free _).target found, notTrailing,
          isPlace, ?_⟩
        rw [lookup?_put free, if_pos rfl]
      · rw [content?_put free, if_pos rfl]
      · rw [content?_put free, if_neg differs]
  write_keeps {files place} text isEmpty :=
    have free := ne_dir_of_content? isEmpty
    ⟨fun other differs => (content?_put free _ other).trans (if_neg differs),
      fun _ _ found => leads_put free found⟩
  write_ok {files after place text} isEmpty ran := by
    obtain rfl : files.put place (.file text.toUTF8) = after := congrArg Prod.snd ran
    rw [content?_put (ne_dir_of_content? isEmpty), if_pos rfl]

end Files

namespace Command

variable {World Handle File : Type} {system : FileSystem World Handle File} {world : World}
  {options : Options}

end Command

end LetChain
