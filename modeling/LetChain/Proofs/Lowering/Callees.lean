import LetChain.Proofs.Lowering.Placed

/-! Which functions a routine calls. The calls of a routine are those of the body that it was made from,
in the order in which they are evaluated. -/

namespace LetChain

mutual

/-- The functions that an expression calls, apart from the functions inside it. -/
def Expr.calls : Expr .typed → List SymbolId
  | .number .. | .string .. | .bool .. | .named .. => []
  | .binary _ lhs rhs _ _ => lhs.calls ++ rhs.calls
  | .range first limit none _ _ => first.calls ++ limit.calls
  | .range first limit (some step) _ _ => first.calls ++ limit.calls ++ step.calls
  | .call _ args sym _ _ => Expr.allCalls args ++ [sym]
  | .construct _ args _ _ _ => Expr.allCalls args
  | .member base _ _ _ _ => base.calls
  | .ifElse cond yes no _ _ => cond.calls ++ yes.calls ++ no.calls
  | .ifOnly cond yes _ _ => cond.calls ++ yes.calls
  | .foreach _ _ source body _ _ _ => source.calls ++ body.calls
  | .block body _ => body.calls

def Expr.allCalls : List (Expr .typed) → List SymbolId
  | [] => []
  | first :: rest => first.calls ++ Expr.allCalls rest

def Block.calls : Block .typed → List SymbolId
  | ⟨stmts, _, _⟩ => Stmt.allCalls stmts

def Stmt.allCalls : List (Stmt .typed) → List SymbolId
  | [] => []
  | first :: rest => first.calls ++ Stmt.allCalls rest

def Stmt.calls : Stmt .typed → List SymbolId
  | .letIn _ _ first chained _ _ => first.calls ++ Expr.allCalls chained
  | .func .. | .record .. => []
  | .expr value => value.calls

end

def Instr.callee? : Instr → Option Nat
  | .call routine => some routine
  | _ => none

def Routine.callees (routine : Routine) : List Nat := routine.code.toList.filterMap Instr.callee?

namespace Site

/-- The calls in the code from `pc` up to `pc'` are those of the given functions. -/
def Calls (site : Site) (pc pc' : Nat) (syms : List SymbolId) : Prop :=
  ∃ count, pc' = pc + count ∧ syms.map (fun sym => site.layout.functionIds[sym]?) =
    (((site.routine.code.toList.drop pc).take count).filterMap Instr.callee?).map some

namespace Calls

variable {site : Site} {pc pc₁ pc' : Nat} {syms syms' : List SymbolId}

theorem nil : site.Calls pc pc [] := ⟨0, rfl, rfl⟩

theorem append (first : site.Calls pc pc₁ syms) (second : site.Calls pc₁ pc' syms') :
    site.Calls pc pc' (syms ++ syms') := by
  obtain ⟨count, rfl, areFirst⟩ := first
  obtain ⟨count', rfl, areSecond⟩ := second
  refine ⟨count + count', by omega, ?_⟩
  rw [List.take_add, List.filterMap_append, List.drop_drop, List.map_append, List.map_append, areFirst,
    areSecond]

theorem one {instr : Instr} (has : site.Has pc instr)
    (same : syms.map (fun sym => site.layout.functionIds[sym]?) = instr.callee?.toList.map some) :
    site.Calls pc (pc + 1) syms := by
  refine ⟨1, rfl, ?_⟩
  have first : (site.routine.code.toList.drop pc).take 1 = [instr] := by
    obtain ⟨bound, isInstr⟩ := Array.getElem?_eq_some_iff.mp has
    rw [List.drop_eq_getElem_cons (by simpa using bound)]
    simpa using isInstr
  rw [first, same]
  cases found : instr.callee? <;> simp [found]

theorem plain {instr : Instr} (has : site.Has pc instr) (none : instr.callee? = none) :
    site.Calls pc (pc + 1) [] :=
  one has (by rw [none]; rfl)

theorem call {sym : SymbolId} {index : Nat} (found : site.layout.functionIds[sym]? = some index)
    (has : site.Has pc (.call index)) : site.Calls pc (pc + 1) [sym] :=
  one has (congrArg ([·]) found)

theorem box {op : Operator} {ty : Ty} (code : site.BoxCode op ty pc pc') : site.Calls pc pc' [] := by
  unfold Site.BoxCode at code
  split at code
  · obtain ⟨has, rfl⟩ := code
    exact plain has rfl
  · subst code
    exact nil

theorem whole (calls : site.Calls 0 pc syms) (ends : site.Has pc .ret)
    (size : site.routine.code.size = pc + 1) :
    syms.map (fun sym => site.layout.functionIds[sym]?) = site.routine.callees.map some := by
  obtain ⟨count, isCount, all⟩ := calls.append (plain ends rfl)
  rw [List.append_nil, List.drop_zero, List.take_of_length_le] at all
  · exact all
  · rw [Array.length_toList, size]
    omega

end Calls

variable {site : Site}

mutual

theorem expr_calls : ∀ {low pc pc' : Nat} (e : Expr .typed), site.ExprCode low e pc pc' →
    site.Calls pc pc' e.calls
  | _, _, _, .number .., .number has => .plain has rfl
  | _, _, _, .string .., .string has => .plain has rfl
  | _, _, _, .bool .., .bool has => .plain has rfl
  | _, _, _, .named .., code => by
    cases code with
    | param _ has => exact .plain has rfl
    | localVar _ _ has => exact .plain has rfl
  | _, _, _, .binary op lhs rhs _ _, .binary _ isLhs lhsBox isRhs rhsBox has => by
    have left := (expr_calls lhs isLhs).append (.box lhsBox)
    have right := (expr_calls rhs isRhs).append ((Calls.box rhsBox).append (.plain has rfl))
    simpa [Expr.calls] using left.append right
  | _, _, _, .range first limit none _ _, .range isFirst isLimit pushes has => by
    have last := (Calls.plain pushes rfl).append (.plain has rfl)
    simpa [Expr.calls] using (expr_calls first isFirst).append
      ((expr_calls limit isLimit).append last)
  | _, _, _, .range first limit (some step) _ _, .rangeBy isFirst isLimit isStep has => by
    have last := (expr_calls step isStep).append (.plain has rfl)
    simpa [Expr.calls] using (expr_calls first isFirst).append
      ((expr_calls limit isLimit).append last)
  | _, _, _, .call _ args _ _ _, .call areArgs found has => by
    rw [Expr.calls]
    exact (exprs_calls args areArgs).append (.call found has)
  | _, _, _, .construct _ args _ _ _, .construct areArgs _ has => by
    simpa [Expr.calls] using (exprs_calls args areArgs).append (.plain has rfl)
  | _, _, _, .member base _ _ _ _, .member isBase _ _ has => by
    simpa [Expr.calls] using (expr_calls base isBase).append (.plain has rfl)
  | _, _, _, .ifElse cond yes no _ _,
      .ifElse isCond branches isYes skips otherwiseMark _ isNo doneMark _ => by
      have first := (expr_calls cond isCond).append (.plain branches rfl)
      have second := (block_calls yes isYes).append
        ((Calls.plain skips rfl).append (.plain otherwiseMark rfl))
      have third := (block_calls no isNo).append (.plain doneMark rfl)
      simpa [Expr.calls] using first.append (second.append third)
  | _, _, _, .ifOnly .., code => nomatch code
  | _, _, _, .foreach .., code => nomatch code
  | _, _, _, .block body _, .block code => by
    rw [Expr.calls]
    exact block_calls body code
termination_by structural _ _ _ e => e

theorem exprs_calls : ∀ {low pc pc' : Nat} (es : List (Expr .typed)), site.ExprsCode low es pc pc' →
    site.Calls pc pc' (Expr.allCalls es)
  | _, _, _, [], .nil => .nil
  | _, _, _, first :: rest, .cons isFirst areRest => by
    rw [Expr.allCalls]
    exact (expr_calls first isFirst).append (exprs_calls rest areRest)
termination_by structural _ _ _ es => es

theorem chain_calls : ∀ {low slot pc pc' : Nat} (bodies : List (Expr .typed)),
    site.ChainCode low slot bodies pc pc' → site.Calls pc pc' (Expr.allCalls bodies)
  | _, _, _, _, [], .nil => .nil
  | low, slot, pc, pc', body :: rest, code => by
    have plain {pc₁ : Nat} (isBody : site.ExprCode low body pc pc₁)
        (stores : site.Has pc₁ (.storeLocal slot))
        (areRest : site.ChainCode low slot rest (pc₁ + 1) pc') :
        site.Calls pc pc' (Expr.allCalls (body :: rest)) := by
      simpa [Expr.allCalls] using ((expr_calls body isBody).append (.plain stores rfl)).append
        (chain_calls rest areRest)
    cases body with
    | ifOnly cond yes span ty =>
      cases code with
      | plain wrong _ _ => nomatch wrong
      | ifOnly isCond branches isYes stores doneMark _ areRest =>
        have first := (expr_calls cond isCond).append (.plain branches rfl)
        have second := (block_calls yes isYes).append
          ((Calls.plain stores rfl).append (.plain doneMark rfl))
        simpa [Expr.allCalls, Expr.calls] using
          (first.append second).append (chain_calls rest areRest)
    | foreach element elementType source body sym span ty =>
      cases code with
      | plain wrong _ _ => nomatch wrong
      | foreach _ _ _ isSource acquires topMark _ advances storesElement isBody stores back
          exitMark _ releases areRest =>
          have first := (expr_calls source isSource).append ((Calls.plain acquires rfl).append
            ((Calls.plain topMark rfl).append ((Calls.plain advances rfl).append
              (.plain storesElement rfl))))
          have second := (block_calls body isBody).append ((Calls.plain stores rfl).append
            ((Calls.plain back rfl).append ((Calls.plain exitMark rfl).append
              (.plain releases rfl))))
          simpa [Expr.allCalls, Expr.calls] using
            (first.append second).append (chain_calls rest areRest)
    | _ =>
      cases code with
      | plain isBody stores areRest => exact plain isBody stores areRest
termination_by structural _ _ _ _ bodies => bodies

theorem block_calls : ∀ {low pc pc' : Nat} (body : Block .typed), site.BlockCode low body pc pc' →
    site.Calls pc pc' body.calls
  | _, _, _, ⟨stmts, _, _⟩, .mk code => stmts_calls stmts code
termination_by structural _ _ _ body => body

theorem stmts_calls : ∀ {low pc pc' : Nat} (stmts : List (Stmt .typed)),
    site.StmtsCode low stmts pc pc' → site.Calls pc pc' (Stmt.allCalls stmts)
  | _, _, _, [], .nil => .nil
  | _, _, _, .letIn _ _ first chained _ _ :: rest, .letIn _ isFirst stores areChained areRest => by
    have assigned := (expr_calls first isFirst).append (.plain stores rfl)
    simpa [Stmt.allCalls, Stmt.calls] using
      (assigned.append (chain_calls chained areChained)).append (stmts_calls rest areRest)
  | _, _, _, .func .. :: rest, .func areRest => by
    simpa [Stmt.allCalls, Stmt.calls] using stmts_calls rest areRest
  | _, _, _, .record .. :: rest, .record areRest => by
    simpa [Stmt.allCalls, Stmt.calls] using stmts_calls rest areRest
  | _, _, _, .expr value :: rest, code => by
    cases code with
    | last isValue => simpa [Stmt.allCalls, Stmt.calls] using expr_calls value isValue
    | drop _ isValue pops areRest =>
      have dropped := (expr_calls value isValue).append (.plain pops rfl)
      simpa [Stmt.allCalls, Stmt.calls] using dropped.append (stmts_calls rest areRest)
termination_by structural _ _ _ stmts => stmts

end

end Site

end LetChain
