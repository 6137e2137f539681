import LetChain.Proofs.Machine.Instructions
import LetChain.Proofs.Meaning.Sound
import LetChain.Proofs.Stateful

/-! The machine follows the evaluator: the code of every tree does what the tree means. -/

namespace LetChain

open Meaning

/-- The routine of a function, with a slot for each of its locals. Labels lead to their marks. -/
structure Site.Implements (site : Site) (function : FunctionDef) : Prop where
  params : site.routine.params = function.params
  locals : site.routine.locals = site.locals.length
  nodup : site.locals.Nodup
  code : ∃ stop, site.BlockCode 0 function.body 0 stop ∧ site.Has stop .ret ∧
    site.routine.code.size = stop + 1
  marks : ∀ label pc, site.Leads label pc → site.Has pc (.mark label)

structure Linked (program : Program) (layout : Layout) (symbols : Symbols) (globals : Globals) :
    Prop where
  symbol : ∀ id, globals.symbol id = (symbols.get id).forgetScope
  typed : ∀ function ∈ globals.functions, Typing.FunctionTyped globals function
  nodup : (globals.functions.map FunctionDef.sym).Nodup
  count : program.routines.size = globals.functions.length
  routine : ∀ (index : Nat) (function : FunctionDef), globals.functions[index]? = some function →
    ∃ routine, program.routines[index]? = some routine ∧
      Site.Implements ⟨layout, symbols, routine, function.body.locals⟩ function
  functionId : ∀ (sym : SymbolId) (index : Nat), layout.functionIds[sym]? = some index →
    ∃ function, globals.functions[index]? = some function ∧ function.sym = sym
  record : ∀ (sym : SymbolId) (index : Nat), layout.recordIds[sym]? = some index →
    program.records[index]? = some ⟨(globals.symbol sym).name,
      globals.names (globals.symbol sym).fields, List.range (globals.symbol sym).fields.length⟩

theorem Linked.kind_field {program : Program} {layout : Layout} {symbols : Symbols}
    {globals : Globals} (linked : Linked program layout symbols globals) {sym record : SymbolId}
    {index : Nat} (kind : (symbols.get sym).kind = .field record index) :
    (globals.symbol sym).kind = .field record index := by
  rw [linked.symbol, Symbol.forgetScope, kind]
  rfl

theorem Linked.find?_eq_some {program : Program} {layout : Layout} {symbols : Symbols}
    {globals : Globals} (linked : Linked program layout symbols globals) {index : Nat}
    {function : FunctionDef} (found : globals.functions[index]? = some function) :
    globals.functions.find? (·.sym = function.sym) = some function := by
  have nodup := linked.nodup
  generalize globals.functions = functions at found nodup
  induction functions generalizing index with
  | nil => cases found
  | cons first rest ih =>
    rw [List.map_cons, List.nodup_cons] at nodup
    cases index with
    | zero =>
      cases found
      simp
    | succ index =>
      have member : function ∈ rest := List.mem_of_getElem? found
      have different : first.sym ≠ function.sym := fun same =>
        nodup.1 (same ▸ List.mem_map_of_mem member)
      rw [List.find?_cons_of_neg (by simpa using different)]
      exact ih found nodup.2

/-- With `levels` levels of calls left, every call instruction follows the call that it makes. -/
def CallsFollow (program : Program) (limits : Limits) (globals : Globals) (levels : Nat) : Prop :=
  ∀ (call : Call) (store : Store) (loops : Loops) (pc : Nat) (stack : Array Value)
    (index : Nat) (function : FunctionDef) (args : List Value),
    globals.functions[index]? = some function → args.length = function.params →
    call.site.Has pc (.call index) → call.base ≤ stack.size →
    call.depth + levels = limits.maxCallDepth →
    (call.state store loops pc (stack ++ args.toArray)).Follows program limits
      (callFunction globals limits levels function.sym args store.made) fun result state' =>
        ∃ opened, state' = call.state { store with made := result.2 } ⟨loops.iterators, opened⟩
          (pc + 1) (stack.push result.1)

namespace Call

structure Ready (call : Call) (program : Program) (limits : Limits) (globals : Globals)
    (levels : Nat) : Prop where
  linked : Linked program call.site.layout call.site.symbols globals
  nodup : call.site.locals.Nodup
  depth : call.depth + levels = limits.maxCallDepth
  calls : CallsFollow program limits globals levels

def context (call : Call) (limits : Limits) (globals : Globals) (levels : Nat) : Context :=
  ⟨globals, limits, call.args, callFunction globals limits levels⟩

variable {program : Program} {limits : Limits} {globals : Globals} {levels : Nat} {call : Call}
  {low pc pc' : Nat} {stack : Array Value}

theorem Runs.read (ready : call.Ready program limits globals levels) {name : Ident} {sym : SymbolId}
    {span : Span} {ty : Ty} (code : call.site.ExprCode low (.named name sym span ty) pc pc') :
    call.Runs program limits low stack (read (call.context limits globals levels) sym) pc pc'
      stack.push := by
  cases code with
  | param kind has =>
    simp only [Meaning.read, context, ready.linked.symbol, Symbol.forgetScope, kind,
      SymbolKind.forgetScope]
    exact loadParam has
  | localVar notParam hasSlot has =>
    simp only [Meaning.read, context, ready.linked.symbol, Symbol.forgetScope]
    cases kind : (call.site.symbols.get sym).kind with
    | param index => exact absurd kind (notParam index)
    | _ => exact loadLocal has hasSlot

theorem Runs.invoke (ready : call.Ready program limits globals levels) {sym : SymbolId}
    {index : Nat} {params : List SymbolId} {returns : Ty} {args : List Value}
    (isFunction : globals.IsFunction sym params returns) (arity : args.length = params.length)
    (found : call.site.layout.functionIds[sym]? = some index)
    (has : call.site.Has pc (.call index)) (room : call.base ≤ stack.size) :
    call.Runs program limits low (stack ++ args.toArray)
      (invoke (call.context limits globals levels) sym args) pc (pc + 1) stack.push := by
  obtain ⟨function, numbered, rfl⟩ := ready.linked.functionId sym index found
  obtain ⟨params', returns', isFunction', count, -⟩ :=
    ready.linked.typed function (List.mem_of_getElem? numbered)
  cases isFunction.symm.trans isFunction'
  intro store loops _
  have called := ready.calls call store loops pc stack index function args numbered
    (arity.trans count) has room ready.depth
  refine called.bind ?_
  rintro ⟨value, made⟩ _ - ⟨opened, rfl⟩
  exact .pure ⟨⟨loops.iterators, opened⟩, ⟨rfl, fun _ _ => rfl⟩, rfl⟩

theorem release_reaches {store : Store} {loops : Loops} {iterator : Nat}
    (has : call.site.Has pc (.release iterator)) :
    ∃ loops', loops.Kept iterator loops' ∧
      (call.state store loops pc stack).Reaches program limits
        (call.state store loops' (pc + 1) stack) := by
  have stepped : (call.state store loops pc stack).step program limits = _ := step_eq has
  simp only [State.exec, State.release, state, frame] at stepped
  cases found : loops.iterators[iterator]? with
  | none =>
    simp only [found] at stepped
    exact ⟨loops, .refl, .of_step stepped rfl⟩
  | some iterating =>
    cases iterating with
    | none =>
      simp only [found] at stepped
      exact ⟨loops, .refl, .of_step stepped rfl⟩
    | some items =>
      simp only [found] at stepped
      exact ⟨⟨loops.iterators.setIfInBounds iterator none, loops.opened - 1⟩,
        .set (Nat.le_refl _) none, .of_step stepped rfl⟩

theorem loop_follows {iterator exitPc : Nat} {top exit : Label} {act : Value → Eval Unit}
    (marked : call.site.Has pc (.mark top))
    (advances : call.site.Has (pc + 1) (.advance iterator exit))
    (leads : call.site.Leads exit exitPc)
    (body : ∀ item, call.Runs program limits (iterator + 1) (stack.push item) (act item) (pc + 2) pc
      fun _ => stack) :
    ∀ (items : List Value) (store : Store) (loops : Loops),
      loops.iterators.size = call.site.routine.iterators →
      loops.iterators[iterator]? = some (some items) →
      (call.state store loops pc stack).Follows program limits (items.forM act store)
        fun result state' => ∃ loops', loops.Kept iterator loops' ∧
          state' = call.state result.2 loops' exitPc stack
  | [], store, loops, sized, found => by
    have atTop : (call.state store loops pc stack).Reaches program limits
        (call.state store loops (pc + 1) stack) :=
      .of_step (step_eq marked) rfl
    have stepped : (call.state store loops (pc + 1) stack).step program limits = _ :=
      step_eq advances
    simp only [State.exec, State.advance, state, frame, found] at stepped
    exact .reach (atTop.trans (.of_step (stepped.trans (jump_eq leads)) rfl))
      (.pure ⟨loops, .refl, rfl⟩)
  | item :: rest, store, loops, sized, found => by
    have atTop : (call.state store loops pc stack).Reaches program limits
        (call.state store loops (pc + 1) stack) :=
      .of_step (step_eq marked) rfl
    have stepped : (call.state store loops (pc + 1) stack).step program limits = _ :=
      step_eq advances
    simp only [State.exec, State.advance, state, frame, found] at stepped
    let loops₁ : Loops := ⟨loops.iterators.setIfInBounds iterator (some rest), loops.opened⟩
    have advanced : (call.state store loops (pc + 1) stack).step program limits =
        (call.state store loops₁ (pc + 2) stack).push limits item := stepped
    have sized₁ : loops₁.iterators.size = call.site.routine.iterators := by
      simpa [loops₁] using sized
    have found₁ : loops₁.iterators[iterator]? = some (some rest) := by
      simp [loops₁, (Array.getElem?_eq_some_iff.mp found).1]
    have pushed : (call.state store loops (pc + 1) stack).Follows program limits
        (.ok (item, store)) fun result state' => ∃ loops', loops₁.Kept (iterator + 1) loops' ∧
          state' = call.state result.2 loops' (pc + 2) (stack.push result.1) :=
      follows_push advanced rfl ⟨_, .refl, rfl⟩
    refine .reach atTop ?_
    change (call.state store loops (pc + 1) stack).Follows program limits
      (Except.ok (item, store) >>= fun _ => (act item >>= fun _ => rest.forM act) store) _
    refine pushed.bind ?_
    rintro result _ gives ⟨loops₂, kept₂, rfl⟩
    cases gives
    refine (body item store loops₂ (kept₂.size.trans sized₁)).bind ?_
    rintro ⟨_, store₃⟩ _ - ⟨loops₃, kept₃, rfl⟩
    have kept₁₃ := kept₂.trans kept₃
    have found₃ : loops₃.iterators[iterator]? = some (some rest) :=
      (kept₁₃.below iterator (Nat.lt_succ_self _)).trans found₁
    have later := loop_follows marked advances leads body rest store₃ loops₃
      (kept₁₃.size.trans sized₁) found₃
    refine later.mono ?_
    rintro result _ ⟨loops', kept', rfl⟩
    refine ⟨loops', ?_, rfl⟩
    have first : loops.Kept iterator loops₁ := .set (Nat.le_refl _) (some rest)
    exact (first.trans (kept₁₃.mono (Nat.le_succ _))).trans kept'

theorem Runs.foreach {value : Value} {iterator exitPc : Nat} {top exit : Label}
    {act : Value → Eval Unit} (above : low ≤ iterator)
    (within : iterator < call.site.routine.iterators)
    (acquires : call.site.Has pc (.acquire iterator)) (topMark : call.site.Has (pc + 1) (.mark top))
    (advances : call.site.Has (pc + 2) (.advance iterator exit))
    (exitMark : call.site.Has exitPc (.mark exit)) (leads : call.site.Leads exit exitPc)
    (releases : call.site.Has (exitPc + 1) (.release iterator)) (room : call.base ≤ stack.size)
    (body : ∀ item, call.Runs program limits (iterator + 1) (stack.push item) (act item) (pc + 3)
      (pc + 1) fun _ => stack) :
    call.Runs program limits low (stack.push value)
      (orStuck (items? value) >>= fun items => items.forM act) pc (exitPc + 2) fun _ => stack := by
  intro store loops sized
  have acquired : (call.state store loops pc (stack.push value)).step program limits = _ :=
    step_eq acquires
  simp only [State.exec, State.acquire] at acquired
  rw [pop_push room] at acquired
  cases value with
  | seq items =>
    have bound : iterator < loops.iterators.size := by omega
    simp only [state, frame, Array.getElem?_eq_getElem bound] at acquired
    have looped (opened : Nat) := loop_follows topMark advances leads body items store
      ⟨loops.iterators.setIfInBounds iterator (some items), opened⟩ (by simpa using sized)
      (by simp [bound])
    refine .reach (.of_step acquired rfl) (.before (looped _) ?_)
    rintro ⟨_, store'⟩ _ ⟨loops₁, kept₁, rfl⟩
    have marked : (call.state store' loops₁ exitPc stack).Reaches program limits
        (call.state store' loops₁ (exitPc + 1) stack) :=
      .of_step (step_eq exitMark) rfl
    obtain ⟨loops₂, kept₂, released⟩ := release_reaches releases
    refine ⟨_, marked.trans released, loops₂, ?_, rfl⟩
    exact ((Loops.Kept.set above (some items)).trans (kept₁.mono above)).trans (kept₂.mono above)
  | _ => exact .stuck (.of_step acquired rfl)

/-! ### Trees -/

theorem evalExprs_length {context : Context} : ∀ {es : List (Expr .typed)} {values : List Value}
    {store store' : Store}, evalExprs context es store = .ok (values, store') →
    values.length = es.length
  | [], values, store, store', ran => by
    cases ran
    rfl
  | first :: rest, values, store, store', ran => by
    rw [evalExprs] at ran
    obtain ⟨value, store₁, _, ran⟩ := Stateful.bind_eq_ok.mp ran
    obtain ⟨others, store₂, ranRest, ran⟩ := Stateful.bind_eq_ok.mp ran
    cases ran
    exact congrArg Nat.succ (evalExprs_length ranRest)

theorem room_push {value : Value} (room : call.base ≤ stack.size) :
    call.base ≤ (stack.push value).size := by
  rw [Array.size_push]
  omega

section Trees

open Typing

variable {owner : SymbolId}

mutual

theorem evalExpr_runs (ready : call.Ready program limits globals levels) :
    ∀ {set : List SymbolId} {low pc pc' : Nat} {stack : Array Value} (e : Expr .typed),
      HasType globals owner set e → call.site.ExprCode low e pc pc' → call.base ≤ stack.size →
      call.Runs program limits low stack (evalExpr (call.context limits globals levels) e) pc pc'
        stack.push
  | _, _, _, _, _, .number .., _, code, _ => by
    cases code with
    | number has =>
      rw [evalExpr]
      exact Runs.push has fun _ => rfl
  | _, _, _, _, _, .string .., _, code, _ => by
    cases code with
    | string has =>
      rw [evalExpr]
      exact Runs.push has fun _ => rfl
  | _, _, _, _, _, .bool .., _, code, _ => by
    cases code with
    | bool has =>
      rw [evalExpr]
      exact Runs.push has fun _ => rfl
  | _, _, _, _, _, .named .., _, code, _ => by
    rw [evalExpr]
    exact Runs.read ready code
  | _, _, _, _, _, .binary op lhs rhs _ _, rule, code, room => by
    cases rule with
    | binary lhsRule rhsRule _ =>
      cases code with
      | binary chosen lhsCode lhsBox rhsCode rhsBox has =>
        rw [evalExpr]
        refine (evalExpr_runs ready lhs lhsRule lhsCode room).bind fun left _ => ?_
        refine (Runs.boxOperand lhsBox room).after ?_
        refine (evalExpr_runs ready rhs rhsRule rhsCode (room_push room)).bind fun right _ => ?_
        refine (Runs.boxOperand rhsBox (room_push room)).after ?_
        exact Runs.binary chosen has room
  | _, _, _, _, _, .range first limit none _ _, rule, code, room => by
    cases rule with
    | range firstRule _ limitRule _ =>
      cases code with
      | range firstCode limitCode pushes has =>
        rw [evalExpr]
        refine (evalExpr_runs ready first firstRule firstCode room).bind fun _ _ => ?_
        refine (evalExpr_runs ready limit limitRule limitCode (room_push room)).bind
          fun _ _ => ?_
        exact (Runs.push pushes fun _ => rfl).silently.after (Runs.generateList has room)
  | _, _, _, _, _, .range first limit (some step) _ _, rule, code, room => by
    cases rule with
    | rangeBy firstRule _ limitRule _ stepRule _ =>
      cases code with
      | rangeBy firstCode limitCode stepCode has =>
        rw [evalExpr]
        refine (evalExpr_runs ready first firstRule firstCode room).bind fun _ _ => ?_
        refine (evalExpr_runs ready limit limitRule limitCode (room_push room)).bind
          fun _ _ => ?_
        refine (evalExpr_runs ready step stepRule stepCode (room_push (room_push room))).bind
          fun _ _ => ?_
        exact Runs.generateList has room
  | _, _, _, _, _, .call _ args _ _ _, rule, code, room => by
    cases rule with
    | call isFunction _ argsRule types =>
      cases code with
      | call argsCode found has =>
        rw [evalExpr]
        refine (evalExprs_runs ready args argsRule argsCode room).bind
          fun values ⟨_, _, gives⟩ => ?_
        have arity := (evalExprs_length gives).trans (Globals.length_of_types types)
        exact Runs.invoke ready isFunction arity found has room
  | _, _, _, _, _, .construct _ args sym _ _, rule, code, room => by
    cases rule with
    | @construct _ _ _ _ _ fields isRecord argsRule types =>
      cases code with
      | construct argsCode found has =>
        rw [evalExpr]
        refine (evalExprs_runs ready args argsRule argsCode room).bind
          fun values ⟨_, _, gives⟩ => ?_
        have same : (globals.symbol sym).fields = fields := by rw [Symbol.fields, isRecord]
        have arity : (globals.symbol sym).fields.length = values.length := by
          rw [same, evalExprs_length gives, Globals.length_of_types types]
        have laid := ready.linked.record sym _ found
        rw [arity] at laid
        exact Runs.construct laid arity has room
  | _, _, _, _, _, .member base _ sym _ _, rule, code, room => by
    cases rule with
    | member baseRule _ _ _ kind =>
      cases code with
      | member baseCode kind' _ has =>
        rw [evalExpr]
        refine (evalExpr_runs ready base baseRule baseCode room).bind fun _ _ => ?_
        exact Runs.loadField (ready.linked.kind_field kind') has room
  | _, _, _, _, _, .ifElse cond yes no _ _, rule, code, room => by
    cases rule with
    | ifElse condRule _ yesRule noRule =>
      cases code with
      | ifElse condCode branch yesCode skip otherwiseMark otherwiseLeads noCode doneMark
          doneLeads =>
          rw [evalExpr]
          refine (evalExpr_runs ready cond condRule condCode room).bind fun _ _ => ?_
          have yesRuns := (evalBlock_runs ready yes yesRule yesCode room).before
            fun _ => (Runs.branchTo skip doneLeads).after (Runs.mark doneMark)
          have noRuns := (Runs.mark otherwiseMark).after
            ((evalBlock_runs ready no noRule noCode room).before fun _ => Runs.mark doneMark)
          exact Runs.branch branch otherwiseLeads room yesRuns noRuns
  | _, _, _, _, _, .ifOnly .., rule, _, _ => nomatch rule
  | _, _, _, _, _, .foreach .., rule, _, _ => nomatch rule
  | _, _, _, _, _, .block body _, rule, code, room => by
    cases rule with
    | block bodyRule =>
      cases code with
      | block bodyCode =>
        rw [evalExpr]
        exact evalBlock_runs ready body bodyRule bodyCode room

theorem evalExprs_runs (ready : call.Ready program limits globals levels) :
    ∀ {set : List SymbolId} {low pc pc' : Nat} {stack : Array Value} (es : List (Expr .typed)),
      HaveTypes globals owner set es → call.site.ExprsCode low es pc pc' → call.base ≤ stack.size →
      call.Runs program limits low stack (evalExprs (call.context limits globals levels) es) pc pc'
        fun values => stack ++ values.toArray
  | _, _, _, _, _, [], _, code, _ => by
    cases code
    rw [evalExprs]
    exact Runs.pure (by simp)
  | _, _, _, _, stack, first :: rest, rule, code, room => by
    cases rule with
    | cons firstRule restRule =>
      cases code with
      | cons firstCode restCode =>
        rw [evalExprs]
        refine (evalExpr_runs ready first firstRule firstCode room).bind fun value _ => ?_
        refine (evalExprs_runs ready rest restRule restCode (room_push room)).bind
          fun values _ => ?_
        exact Runs.pure (by simp)

theorem evalBlock_runs (ready : call.Ready program limits globals levels) :
    ∀ {set : List SymbolId} {ty : Ty} {low pc pc' : Nat} {stack : Array Value} (body : Block .typed),
      BlockHasType globals owner set body ty → call.site.BlockCode low body pc pc' →
      call.base ≤ stack.size →
      call.Runs program limits low stack (evalBlock (call.context limits globals levels) body) pc pc'
        stack.push
  | _, _, _, _, _, _, ⟨stmts, _, _⟩, rule, code, room => by
    cases rule with
    | mk stmtsRule last =>
      cases code with
      | mk stmtsCode =>
        rw [evalBlock]
        exact evalStmts_runs ready stmts stmtsRule last stmtsCode room

theorem evalStmts_runs (ready : call.Ready program limits globals levels) :
    ∀ {set : List SymbolId} {ty : Ty} {low pc pc' : Nat} {stack : Array Value}
      (stmts : List (Stmt .typed)), StmtsTyped globals owner set stmts →
      Resolve.lastType? stmts = some ty → call.site.StmtsCode low stmts pc pc' →
      call.base ≤ stack.size →
      call.Runs program limits low stack (evalStmts (call.context limits globals levels) stmts) pc
        pc' stack.push
  | _, _, _, _, _, _, [], _, last, _, _ => nomatch last
  | _, _, _, _, _, _, .letIn _ _ first chained _ sym :: rest, rule, last, code, room => by
    obtain ⟨_, _, wrong, _⟩ | ⟨_, restLast⟩ := lastType?_cons last
    · cases wrong
    cases rule with
    | letIn firstRule _ _ chainRule restRule =>
      cases code with
      | letIn hasSlot firstCode stores chainCode restCode =>
        rw [evalStmts]
        refine (evalExpr_runs ready first firstRule firstCode room).bind fun _ _ => ?_
        refine (Runs.assign _ stores hasSlot ready.nodup room).bind fun _ _ => ?_
        refine (evalChain_runs ready chained chainRule hasSlot chainCode room).bind
          fun _ _ => ?_
        exact evalStmts_runs ready rest restRule restLast restCode room
  | _, _, _, _, _, _, .func .. :: rest, rule, last, code, room => by
    obtain ⟨_, _, wrong, _⟩ | ⟨_, restLast⟩ := lastType?_cons last
    · cases wrong
    cases rule with
    | func restRule =>
      cases code with
      | func restCode =>
        rw [evalStmts]
        exact evalStmts_runs ready rest restRule restLast restCode room
  | _, _, _, _, _, _, .record .. :: rest, rule, last, code, room => by
    obtain ⟨_, _, wrong, _⟩ | ⟨_, restLast⟩ := lastType?_cons last
    · cases wrong
    cases rule with
    | record restRule =>
      cases code with
      | record restCode =>
        rw [evalStmts]
        exact evalStmts_runs ready rest restRule restLast restCode room
  | _, _, _, _, _, _, .expr value :: rest, rule, last, code, room => by
    cases rule with
    | expr valueRule restRule =>
      rw [evalStmts]
      cases code with
      | last valueCode =>
        refine (evalExpr_runs ready value valueRule valueCode room).bind fun _ _ => ?_
        exact Runs.pure rfl
      | drop more valueCode pops restCode =>
        obtain ⟨none, _⟩ | ⟨_, restLast⟩ := lastType?_cons last
        · exact absurd none more
        refine (evalExpr_runs ready value valueRule valueCode room).bind fun _ _ => ?_
        rw [if_neg (by simpa using more)]
        refine (Runs.drop pops room).after ?_
        exact evalStmts_runs ready rest restRule restLast restCode room

theorem evalChain_runs (ready : call.Ready program limits globals levels) :
    ∀ {set : List SymbolId} {ty : Ty} {target : SymbolId} {slot low pc pc' : Nat}
      {stack : Array Value} (bodies : List (Expr .typed)),
      ChainHasType globals owner set ty bodies → call.site.Slot target slot →
      call.site.ChainCode low slot bodies pc pc' → call.base ≤ stack.size →
      call.Runs program limits low stack
        (evalChain (call.context limits globals levels) target bodies) pc pc' fun _ => stack
  | _, _, _, _, _, _, _, _, [], _, _, code, _ => by
    cases code
    rw [evalChain]
    exact Runs.pure rfl
  | set, ty, target, slot, low, pc, pc', stack, body :: rest, rule, hasSlot, code, room => by
    have plain {pc₁ : Nat} (bodyRule : HasType globals owner set body)
        (restRule : ChainHasType globals owner set ty rest)
        (bodyCode : call.site.ExprCode low body pc pc₁)
        (stores : call.site.Has pc₁ (.storeLocal slot))
        (restCode : call.site.ChainCode low slot rest (pc₁ + 1) pc') :
        call.Runs program limits low stack
          (evalChain (call.context limits globals levels) target (body :: rest)) pc pc'
          fun _ => stack := by
      rw [evalChain_cons _ _ bodyRule.isSelfAssigning]
      refine (evalExpr_runs ready body bodyRule bodyCode room).bind fun _ _ => ?_
      refine (Runs.assign _ stores hasSlot ready.nodup room).bind fun _ _ => ?_
      exact evalChain_runs ready rest restRule hasSlot restCode room
    cases body with
    | ifOnly cond yes span ty =>
      cases rule with
      | plain bodyRule _ _ => nomatch bodyRule
      | ifOnly condRule _ yesRule restRule =>
        cases code with
        | plain bodyCode _ _ => nomatch bodyCode
        | ifOnly condCode branch yesCode stores doneMark doneLeads restCode =>
          rw [evalChain]
          refine (evalExpr_runs ready cond condRule condCode room).bind fun _ _ => ?_
          have yesRuns := (evalBlock_runs ready yes yesRule yesCode room).bind
            fun value _ => Runs.assign _ stores hasSlot ready.nodup room
          refine (Runs.branch branch doneLeads room
            (yesRuns.before fun _ => Runs.mark doneMark) (Runs.mark doneMark)).bind
            fun _ _ => ?_
          exact evalChain_runs ready rest restRule hasSlot restCode room
    | foreach element elementType source body sym span ty =>
      cases rule with
      | plain bodyRule _ _ => nomatch bodyRule
      | foreach sourceRule _ _ bodyRule restRule =>
        cases code with
        | plain bodyCode _ _ => nomatch bodyCode
        | foreach above within hasElement sourceCode acquires topMark topLeads advances
            storesElement bodyCode stores back exitMark exitLeads releases restCode =>
            rw [evalChain]
            have above' := Nat.le_succ_of_le above
            refine ((evalExpr_runs ready source sourceRule sourceCode room).lower above').bind
              fun _ _ => ?_
            have each (item : Value) :=
              (Runs.assign item storesElement hasElement ready.nodup room).bind fun _ _ =>
                (evalBlock_runs ready body bodyRule bodyCode room).bind fun _ _ =>
                  (Runs.assign _ stores hasSlot ready.nodup room).before fun _ =>
                    Runs.branchTo back topLeads
            rw [← bind_assoc]
            refine (Runs.foreach above within acquires topMark advances exitMark exitLeads
              releases room each).bind fun _ _ => ?_
            exact (evalChain_runs ready rest restRule hasSlot restCode room).lower above'
    | _ =>
      cases rule with
      | plain bodyRule _ restRule =>
        cases code with
        | plain bodyCode stores restCode =>
          exact plain bodyRule restRule bodyCode stores restCode

end

end Trees

end Call

end LetChain
