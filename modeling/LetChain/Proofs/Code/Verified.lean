import LetChain.Code.Program

/-! Verified code: operands are in range, labels lead to their marks, and every instruction always runs
with the same number of operands on the stack. -/

namespace LetChain

namespace Instr

/-- How many operands an instruction takes from the stack. -/
def pops (program : Program) : Instr → Nat
  | .pushNumber _ | .pushText _ | .pushBool _ | .loadParam _ | .loadLocal _ => 0
  | .storeLocal _ | .loadField _ _ => 1
  | .construct record => (program.records[record]?).elim 0 (·.order.length)
  | .call routine => (program.routines[routine]?).elim 0 Routine.params
  | .branch _ | .mark _ => 0
  | .branchIfFalse _ => 1
  | .binary _ => 2
  | .box | .pop | .writeLine | .acquire _ => 1
  | .generateList => 3
  | .advance _ _ | .release _ | .ret => 0

/-- How many results an instruction leaves before it goes on to the next one. -/
def pushes : Instr → Nat
  | .pushNumber _ | .pushText _ | .pushBool _ | .loadParam _ | .loadLocal _ => 1
  | .loadField _ _ | .construct _ | .call _ | .binary _ | .box | .generateList | .advance _ _ => 1
  | .storeLocal _ | .branch _ | .branchIfFalse _ | .mark _ | .pop | .writeLine => 0
  | .acquire _ | .release _ | .ret => 0

/-- Where control may go from an instruction at `pc` that runs with `height` operands, each with the
number of operands there. -/
def exits (program : Program) (routine : Routine) (pc height : Nat) (instr : Instr) :
    List (Nat × Nat) :=
  let next := (pc + 1, height - instr.pops program + instr.pushes)
  let leads (label : Label) := (routine.labels[label]?).toList.map (·, height - instr.pops program)
  match instr with
  | .ret => []
  | .branch target => leads target
  | .branchIfFalse target => next :: leads target
  | .advance _ exit => next :: leads exit
  | _ => [next]

/-- What an instruction names is there: parameters, locals, iterators, labels, routines, records and
fields. -/
def InRange (program : Program) (routine : Routine) : Instr → Prop
  | .loadParam index => index < routine.params
  | .loadLocal slot | .storeLocal slot => slot < routine.locals
  | .acquire slot | .release slot => slot < routine.iterators
  | .advance slot exit => slot < routine.iterators ∧ exit < routine.labels.size
  | .branch target | .branchIfFalse target => target < routine.labels.size
  | .mark label => label < routine.labels.size
  | .call routine => routine < program.routines.size
  | .construct record => record < program.records.size
  | .loadField record index =>
    ∃ layout, program.records[record]? = some layout ∧ index < layout.fields.length
  | _ => True

theorem pops_call {program : Program} {index : Nat} {routine : Routine}
    (present : program.routines[index]? = some routine) :
    pops program (.call index) = routine.params := by
  rw [pops, present, Option.elim_some]

theorem pops_construct {program : Program} {index : Nat} {record : RecordLayout}
    (present : program.records[index]? = some record) :
    pops program (.construct index) = record.order.length := by
  rw [pops, present, Option.elim_some]

end Instr

/-- A routine that returns with `result` operands of its own on the stack. -/
structure Routine.Verified (program : Program) (routine : Routine) (result : Nat) : Prop where
  marks : ∀ (label : Label) (pc : Nat),
    routine.labels[label]? = some pc ↔ routine.code[pc]? = some (.mark label)
  operands : ∀ (pc : Nat) (instr : Instr), routine.code[pc]? = some instr → instr.InRange program routine
  ret : ∃ last, routine.code.size = last + 1 ∧
    ∀ pc : Nat, routine.code[pc]? = some .ret ↔ pc = last
  heights : ∃ height : Nat → Nat, height 0 = 0 ∧
    ∀ (pc : Nat) (instr : Instr), routine.code[pc]? = some instr → instr.pops program ≤ height pc ∧
      (instr = .ret → height pc = result) ∧
      ∀ next ∈ instr.exits program routine pc (height pc),
        next.1 < routine.code.size ∧ height next.1 = next.2

/-- The operands of a construction fill all fields, each of them once. -/
structure Program.Verified (program : Program) : Prop where
  routines : ∀ routine ∈ program.routines, routine.Verified program 1
  entry : program.entry.Verified program 0
  orders : ∀ layout ∈ program.records, layout.order.Perm (List.range layout.fields.length)

/-! ### Segments of code -/

/-- The instruction at `pc` may run with the heights given. Control stays between two places, or leaves
through `out`. -/
def Routine.Passes (program : Program) (routine : Routine) (height : Nat → Nat)
    (first last : Nat) (out : List (Nat × Nat)) (pc : Nat) : Prop :=
  ∃ instr, routine.code[pc]? = some instr ∧ instr ≠ .ret ∧ instr.InRange program routine ∧
    (∀ label, instr = .mark label → routine.labels[label]? = some pc) ∧
    instr.pops program ≤ height pc ∧
    ∀ next ∈ instr.exits program routine pc (height pc),
      first ≤ next.1 ∧ next.1 ≤ last ∧ height next.1 = next.2 ∨ next ∈ out

def Routine.Segment (program : Program) (routine : Routine) (out : List (Nat × Nat))
    (pc pc' h h' : Nat) : Prop :=
  pc ≤ pc' ∧ ∃ height : Nat → Nat, height pc = h ∧ height pc' = h' ∧
    ∀ here, pc ≤ here → here < pc' → routine.Passes program height pc pc' out here

namespace Routine.Segment

variable {program : Program} {routine : Routine} {out out' : List (Nat × Nat)}
  {pc pc₁ pc' h h₁ h' : Nat}

theorem nil : routine.Segment program [] pc pc h h :=
  ⟨Nat.le_refl _, fun _ => h, rfl, rfl, fun _ lower upper => by omega⟩

theorem close (segment : routine.Segment program out pc pc' h h')
    (closed : ∀ next ∈ out, next = (pc, h) ∨ next = (pc', h') ∨ next ∈ out') :
    routine.Segment program out' pc pc' h h' := by
  obtain ⟨le, height, start, stop, passes⟩ := segment
  refine ⟨le, height, start, stop, fun here lower upper => ?_⟩
  obtain ⟨instr, has, plain, inRange, marks, pops, exits⟩ := passes here lower upper
  refine ⟨instr, has, plain, inRange, marks, pops, fun next member => ?_⟩
  rcases exits next member with inside | left
  · exact Or.inl inside
  · rcases closed next left with rfl | rfl | left
    · exact Or.inl ⟨Nat.le_refl _, le, start⟩
    · exact Or.inl ⟨le, Nat.le_refl _, stop⟩
    · exact Or.inr left

theorem append (first : routine.Segment program out pc pc₁ h h₁)
    (second : routine.Segment program out' pc₁ pc' h₁ h') :
    routine.Segment program (out ++ out') pc pc' h h' := by
  obtain ⟨le, height, start, stop, passes⟩ := first
  obtain ⟨le', height', start', stop', passes'⟩ := second
  let both (here : Nat) := if here < pc₁ then height here else height' here
  have before {here : Nat} (upper : here ≤ pc₁) : both here = height here := by
    rcases Nat.lt_or_eq_of_le upper with earlier | rfl
    · exact if_pos earlier
    · rw [stop, ← start']
      exact if_neg (Nat.lt_irrefl _)
  have after {here : Nat} (lower : pc₁ ≤ here) : both here = height' here :=
    if_neg (Nat.not_lt_of_le lower)
  refine ⟨Nat.le_trans le le', both, (before le).trans start, (after le').trans stop', ?_⟩
  intro here lower upper
  rcases Nat.lt_or_ge here pc₁ with inFirst | inSecond
  · obtain ⟨instr, has, plain, inRange, marks, pops, exits⟩ := passes here lower inFirst
    rw [← before (Nat.le_of_lt inFirst)] at pops exits
    refine ⟨instr, has, plain, inRange, marks, pops, fun next member => ?_⟩
    rcases exits next member with ⟨above, below, same⟩ | left
    · exact Or.inl ⟨above, Nat.le_trans below le', (before below).trans same⟩
    · exact Or.inr (List.mem_append_left _ left)
  · obtain ⟨instr, has, plain, inRange, marks, pops, exits⟩ := passes' here inSecond upper
    rw [← after inSecond] at pops exits
    refine ⟨instr, has, plain, inRange, marks, pops, fun next member => ?_⟩
    rcases exits next member with ⟨above, below, same⟩ | left
    · exact Or.inl ⟨Nat.le_trans le above, below, (after above).trans same⟩
    · exact Or.inr (List.mem_append_right _ left)

theorem single {instr : Instr} (has : routine.code[pc]? = some instr) (plain : instr ≠ .ret)
    (inRange : instr.InRange program routine)
    (marks : ∀ label, instr = .mark label → routine.labels[label]? = some pc)
    (pops : instr.pops program ≤ h)
    (exits : ∀ next ∈ instr.exits program routine pc h, next = (pc + 1, h') ∨ next ∈ out) :
    routine.Segment program out pc (pc + 1) h h' := by
  let height (here : Nat) := if here = pc then h else h'
  have start : height pc = h := if_pos rfl
  have stop : height (pc + 1) = h' := if_neg (Nat.succ_ne_self _)
  refine ⟨Nat.le_succ _, height, start, stop, fun here lower upper => ?_⟩
  obtain rfl : here = pc := by omega
  refine ⟨instr, has, plain, inRange, marks, by rwa [start], fun next member => ?_⟩
  rw [start] at member
  rcases exits next member with rfl | left
  · exact Or.inl ⟨Nat.le_succ _, Nat.le_refl _, stop⟩
  · exact Or.inr left

theorem straight {instr : Instr} (has : routine.code[pc]? = some instr) (plain : instr ≠ .ret)
    (inRange : instr.InRange program routine)
    (marks : ∀ label, instr = .mark label → routine.labels[label]? = some pc)
    (pops : instr.pops program ≤ h)
    (exits : instr.exits program routine pc h = [(pc + 1, h - instr.pops program + instr.pushes)])
    (same : h - instr.pops program + instr.pushes = h') :
    routine.Segment program [] pc (pc + 1) h h' := by
  refine single has plain inRange marks pops fun next member => Or.inl ?_
  rw [exits, same] at member
  exact List.mem_singleton.mp member

/-! ### Labels -/

theorem mark {label : Label} (has : routine.code[pc]? = some (.mark label))
    (leads : routine.labels[label]? = some pc) : routine.Segment program [] pc (pc + 1) h h := by
  have known := (Array.getElem?_eq_some_iff.mp leads).1
  refine straight has nofun known (fun other same => ?_) (Nat.zero_le _) rfl rfl
  cases same
  exact leads

theorem branch {label : Label} (has : routine.code[pc]? = some (.branch label))
    (leads : routine.labels[label]? = some pc₁) :
    routine.Segment program [(pc₁, h)] pc (pc + 1) h h' := by
  have known := (Array.getElem?_eq_some_iff.mp leads).1
  refine single has nofun known nofun (Nat.zero_le _) fun next member => Or.inr ?_
  simpa [Instr.exits, Instr.pops, leads] using member

theorem branchIfFalse {label : Label} (has : routine.code[pc]? = some (.branchIfFalse label))
    (leads : routine.labels[label]? = some pc₁) :
    routine.Segment program [(pc₁, h)] pc (pc + 1) (h + 1) h := by
  have known := (Array.getElem?_eq_some_iff.mp leads).1
  refine single has nofun known nofun (Nat.le_add_left _ _) fun next member => ?_
  simpa [Instr.exits, Instr.pops, Instr.pushes, leads] using member

theorem advance {slot : Nat} {exit : Label} (has : routine.code[pc]? = some (.advance slot exit))
    (within : slot < routine.iterators) (leads : routine.labels[exit]? = some pc₁) :
    routine.Segment program [(pc₁, h)] pc (pc + 1) h (h + 1) := by
  have known := (Array.getElem?_eq_some_iff.mp leads).1
  refine single has nofun ⟨within, known⟩ nofun (Nat.zero_le _) fun next member => ?_
  simpa [Instr.exits, Instr.pops, Instr.pushes, leads] using member

theorem ifElse {otherwise done : Label} {pc₂ pc₃ : Nat}
    (cond : routine.Segment program [] pc pc₁ h (h + 1))
    (branches : routine.code[pc₁]? = some (.branchIfFalse otherwise))
    (yes : routine.Segment program [] (pc₁ + 1) pc₂ h h')
    (skips : routine.code[pc₂]? = some (.branch done))
    (otherwiseMark : routine.code[pc₂ + 1]? = some (.mark otherwise))
    (otherwiseLeads : routine.labels[otherwise]? = some (pc₂ + 1))
    (no : routine.Segment program [] (pc₂ + 2) pc₃ h h')
    (doneMark : routine.code[pc₃]? = some (.mark done))
    (doneLeads : routine.labels[done]? = some pc₃) :
    routine.Segment program [] pc (pc₃ + 1) h h' := by
  have taken : routine.Segment program [(pc₂ + 1, h), (pc₃, h')] pc (pc₂ + 1) h h :=
    cond.append ((branchIfFalse branches otherwiseLeads).append (yes.append (branch skips doneLeads)))
  have closed : routine.Segment program [(pc₃, h')] pc (pc₂ + 1) h h := taken.close (by simp)
  have both : routine.Segment program [(pc₃, h')] pc pc₃ h h' :=
    closed.append ((mark otherwiseMark otherwiseLeads).append no)
  have joined : routine.Segment program [] pc pc₃ h h' := both.close (by simp)
  exact joined.append (mark doneMark doneLeads)

theorem ifOnly {done : Label} {pc₂ : Nat} (cond : routine.Segment program [] pc pc₁ h (h + 1))
    (branches : routine.code[pc₁]? = some (.branchIfFalse done))
    (yes : routine.Segment program [] (pc₁ + 1) pc₂ h h)
    (doneMark : routine.code[pc₂]? = some (.mark done))
    (doneLeads : routine.labels[done]? = some pc₂) :
    routine.Segment program [] pc (pc₂ + 1) h h := by
  have taken : routine.Segment program [(pc₂, h)] pc pc₂ h h :=
    cond.append ((branchIfFalse branches doneLeads).append yes)
  have joined : routine.Segment program [] pc pc₂ h h := taken.close (by simp)
  exact joined.append (mark doneMark doneLeads)

theorem loop {top exit : Label} {slot : Nat} (within : slot < routine.iterators)
    (topMark : routine.code[pc]? = some (.mark top)) (topLeads : routine.labels[top]? = some pc)
    (advances : routine.code[pc + 1]? = some (.advance slot exit))
    (body : routine.Segment program [] (pc + 2) pc₁ (h + 1) h)
    (back : routine.code[pc₁]? = some (.branch top))
    (exitMark : routine.code[pc₁ + 1]? = some (.mark exit))
    (exitLeads : routine.labels[exit]? = some (pc₁ + 1)) :
    routine.Segment program [] pc (pc₁ + 2) h h := by
  have round : routine.Segment program [(pc₁ + 1, h), (pc, h)] pc (pc₁ + 1) h h :=
    (mark topMark topLeads).append
      ((advance advances within exitLeads).append (body.append (branch back topLeads)))
  have joined : routine.Segment program [] pc (pc₁ + 1) h h := round.close (by simp)
  exact joined.append (mark exitMark exitLeads)

theorem verified {last result : Nat} (segment : routine.Segment program [] 0 last 0 result)
    (ends : routine.code[last]? = some .ret) (size : routine.code.size = last + 1)
    (leads : ∀ (label : Label) (pc : Nat), routine.labels[label]? = some pc →
      routine.code[pc]? = some (.mark label)) : routine.Verified program result := by
  obtain ⟨-, height, start, stop, passes⟩ := segment
  have position {pc : Nat} {instr : Instr} (has : routine.code[pc]? = some instr) :
      pc < last ∨ pc = last ∧ instr = .ret := by
    have bound := (Array.getElem?_eq_some_iff.mp has).1
    rcases Nat.lt_or_ge pc last with earlier | later
    · exact Or.inl earlier
    · obtain rfl : pc = last := by omega
      exact Or.inr ⟨rfl, Option.some.inj (has.symm.trans ends)⟩
  refine ⟨fun label pc => ⟨leads label pc, fun has => ?_⟩, fun pc instr has => ?_,
    ⟨last, size, fun pc => ⟨fun has => ?_, fun same => same ▸ ends⟩⟩,
    ⟨height, start, fun pc instr has => ?_⟩⟩
  · rcases position has with earlier | ⟨-, wrong⟩
    · obtain ⟨instr, has', -, -, marks, -⟩ := passes pc (Nat.zero_le _) earlier
      exact marks label (Option.some.inj (has'.symm.trans has))
    · cases wrong
  · rcases position has with earlier | ⟨-, rfl⟩
    · obtain ⟨instr', has', -, inRange, -⟩ := passes pc (Nat.zero_le _) earlier
      cases has'.symm.trans has
      exact inRange
    · trivial
  · rcases position has with earlier | ⟨same, -⟩
    · obtain ⟨instr, has', plain, -⟩ := passes pc (Nat.zero_le _) earlier
      exact absurd (Option.some.inj (has'.symm.trans has)) plain
    · exact same
  · rcases position has with earlier | ⟨rfl, rfl⟩
    · obtain ⟨instr', has', plain, -, -, pops, exits⟩ := passes pc (Nat.zero_le _) earlier
      cases has'.symm.trans has
      refine ⟨pops, fun isRet => absurd isRet plain, fun next member => ?_⟩
      rcases exits next member with ⟨-, below, same⟩ | left
      · exact ⟨by omega, same⟩
      · cases left
    · exact ⟨Nat.zero_le _, fun _ => stop, nofun⟩

end Routine.Segment

end LetChain
