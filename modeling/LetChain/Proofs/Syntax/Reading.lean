import LetChain.Syntax.Parse

/-! What can be read: a module is a list of functions and records. Names that a reader adds leave the
handles of the others as they are. -/

namespace LetChain

namespace NameTable

theorem name?_insert {table : NameTable} {index : Nat} {known : String} (name : String)
    (found : table.name? index = some known) : (table.insert name).name? index = some known := by
  rw [insert]
  split
  · exact found
  · cases index with
    | zero => cases found
    | succ index =>
      have found : table.names[index]? = some known := found
      have bound := (Array.getElem?_eq_some_iff.mp found).1
      change (table.names.push name)[index]? = some known
      rw [Array.getElem?_push, if_neg (Nat.ne_of_lt bound), found]

theorem name?_insertAll {table : NameTable} {index : Nat} {known : String} (names : List String)
    (found : table.name? index = some known) :
    (table.insertAll names).name? index = some known := by
  induction names generalizing table with
  | nil => exact found
  | cons name rest ih => exact ih (name?_insert name found)

theorem insertAll_append (table : NameTable) (names more : List String) :
    (table.insertAll names).insertAll more = table.insertAll (names ++ more) := by
  simp only [insertAll, List.foldl_append]

theorem mainName?_register : empty.register.mainName? = some "Main" := by
  simp [register, empty, insertAll, builtinNames, insert, mainName?, name?]

end NameTable

def Stmt.IsDeclaration : Stmt .parsed → Prop
  | .func .. | .record .. => True
  | _ => False

namespace Reader

variable {α β : Type}

theorem bind_eq_ok {reader : Reader α} {next : α → Reader β} {start stop : Cursor} {b : β} :
    (reader >>= next) start = .ok b stop ↔
      ∃ a between, reader start = .ok a between ∧ next a between = .ok b stop := by
  change EStateM.bind reader next start = _ ↔ _
  rw [EStateM.bind]
  cases reader start with
  | ok a between =>
    refine ⟨fun ran => ⟨a, between, rfl, ran⟩, ?_⟩
    rintro ⟨_, _, ⟨⟩, ran⟩
    exact ran
  | error error between => simp

theorem expect_eq (kind : TokenKind) (cursor : Cursor) :
    expect kind cursor = if cursor.current.kind = kind then .ok cursor.current cursor.step
      else .error ⟨cursor.current.span, .unexpected cursor.current.kind kind⟩ cursor := by
  change (if cursor.current.kind = kind then advance else fail _ _) cursor = _
  split <;> rfl

/-! ### What is read -/

def Gives (reader : Reader α) (good : α → Prop) : Prop :=
  ∀ cursor a cursor', reader cursor = .ok a cursor' → good a

namespace Gives

variable {reader : Reader α} {good : α → Prop} {good' : β → Prop}

theorem pure {a : α} (isGood : good a) : Gives (Pure.pure a) good := by
  intro cursor a' cursor' ran
  cases ran
  exact isGood

theorem fail {span : Span} {error : ParseError} : Gives (fail span error : Reader α) good := by
  intro cursor a cursor' ran
  change EStateM.Result.error _ _ = EStateM.Result.ok a cursor' at ran
  cases ran

theorem bind {next : α → Reader β} (first : Gives reader good)
    (rest : ∀ a, good a → Gives (next a) good') : Gives (reader >>= next) good' := by
  intro cursor b cursor' ran
  obtain ⟨a, between, read, ran⟩ := bind_eq_ok.mp ran
  exact rest a (first cursor a between read) between b cursor' ran

theorem after {next : α → Reader β} (rest : ∀ a, Gives (next a) good') :
    Gives (reader >>= next) good' :=
  bind (fun _ _ _ _ => trivial) fun a _ => rest a

theorem unexpected : Gives (unexpected : Reader α) good := after fun _ => fail

theorem function : ∀ fuel : Nat, Gives (function fuel) Stmt.IsDeclaration
  | 0 => unexpected
  | fuel + 1 => by
    rw [Reader.function]
    refine after fun _ => after fun _ => after fun _ => after fun _ => after fun _ => ?_
    exact after fun _ => after fun _ => after fun _ => pure trivial

theorem recordDecl (fuel : Nat) : Gives (recordDecl fuel) Stmt.IsDeclaration :=
  after fun _ => after fun _ => after fun _ => after fun _ => after fun _ => pure trivial

theorem declarations : ∀ (fuel : Nat) (stmts : Array PStmt),
    (∀ stmt ∈ stmts, stmt.IsDeclaration) →
    Gives (declarations fuel stmts) fun read => ∀ stmt ∈ read, stmt.IsDeclaration
  | 0, _, _ => unexpected
  | fuel + 1, stmts, declared => by
    have more (stmt : PStmt) (isDeclaration : stmt.IsDeclaration) :
        ∀ other ∈ stmts.push stmt, other.IsDeclaration := by
      intro other member
      rcases Array.mem_push.mp member with older | rfl
      · exact declared other older
      · exact isDeclaration
    rw [Reader.declarations]
    refine after fun token => ?_
    split
    · exact (function fuel).bind fun stmt isGood => declarations fuel _ (more stmt isGood)
    · exact (recordDecl fuel).bind fun stmt isGood => declarations fuel _ (more stmt isGood)
    · exact pure fun stmt member => declared stmt (Array.mem_def.mpr member)
    · exact fail

end Gives

end Reader

@[simp] theorem Cursor.ofTokens_names (tokens : List Token) (names : NameTable) :
    (ofTokens tokens names).names = names := by
  unfold ofTokens
  split <;> rfl

section Parse

variable {α : Type} {reader : Nat → Reader α}

theorem parseWith_gives {good : α → Prop} (gives : ∀ fuel, (reader fuel).Gives good)
    {source : String} {names : NameTable} {a : α}
    (ran : (parseWith reader source names).1 = .ok a) : good a := by
  simp only [parseWith] at ran
  split at ran
  · cases ran
  · split at ran
    · rename_i read
      cases ran
      exact gives _ _ _ _ read
    · cases ran

end Parse

theorem parseModule_isDeclaration {source : String} {names : NameTable} {m : Module .parsed}
    (ran : (parseModule source names).1 = .ok m) : ∀ stmt ∈ m.stmts, stmt.IsDeclaration := by
  have gives (fuel : Nat) : Reader.Gives (Module.mk <$> Reader.declarations fuel #[])
      fun m => ∀ stmt ∈ m.stmts, stmt.IsDeclaration :=
    (Reader.Gives.declarations fuel #[] (by simp)).bind fun _ declared => .pure declared
  exact parseWith_gives gives ran

end LetChain
