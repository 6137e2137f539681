import LetChain.Proofs.Lowering.Numbered
import LetChain.Proofs.Machine.Call

/-! Instructions that compute: each does what the part of the evaluation means that it stands for. -/

namespace LetChain

open Meaning

namespace BinaryInstr

def operand (op : Operator) (ty : Ty) (value : Value) : Value :=
  if op = .concat ∧ ty = .number then .boxed value else value

theorem textOperand_toOption (instr : String) (ty : Ty) (value : Value) :
    (textOperand instr (operand .concat ty value)).toOption = textOf? ty value := by
  by_cases isNumber : ty = .number
  · subst isNumber
    rfl
  · have same : operand .concat ty value = value := if_neg fun both => isNumber both.2
    rw [same]
    cases ty with
    | number => exact absurd rfl isNumber
    | _ => cases value <;> rfl

theorem toOption_textPair {left right : Except RuntimeError String} {f : String → String → Value} :
    (do let a ← left; let b ← right; return f a b : Except RuntimeError Value).toOption =
      match left.toOption, right.toOption with
      | some a, some b => some (f a b)
      | _, _ => none := by
  cases left <;> cases right <;> rfl

theorem apply_toOption {op : Operator} {lhsTy rhsTy : Ty} {instr : BinaryInstr}
    (chosen : Lower.binaryInstr op lhsTy = .ok instr) (lhs rhs : Value) :
    (instr.apply (operand op lhsTy lhs) (operand op rhsTy rhs)).toOption =
      operate? op lhsTy rhsTy lhs rhs := by
  cases op with
  | concat =>
    cases chosen
    refine toOption_textPair.trans ?_
    rw [textOperand_toOption, textOperand_toOption]
    change _ = match textOf? lhsTy lhs, textOf? rhsTy rhs with
      | some left, some right => some (Value.text (left ++ right))
      | _, _ => none
    cases textOf? lhsTy lhs <;> cases textOf? rhsTy rhs <;> rfl
  | eq =>
    cases lhsTy with
    | number | boolean | string | record _ _ => cases chosen; cases lhs <;> cases rhs <;> rfl
    | _ => cases chosen
  | ne =>
    cases lhsTy with
    | number | boolean | string => cases chosen; cases lhs <;> cases rhs <;> rfl
    | record _ _ =>
      cases chosen
      cases lhs <;> cases rhs <;>
        first | rfl | exact congrArg (fun different => some (Value.bool different)) decide_not
    | _ => cases chosen
  | _ => cases chosen; cases lhs <;> cases rhs <;> rfl

end BinaryInstr

/-! ### Records -/

theorem State.fillFields_range' : ∀ (values front back : List Value),
    back.length = values.length →
    State.fillFields (front ++ back).toArray
        (values.zip (List.range' front.length values.length)) = .ok (front ++ values)
  | [], front, back, same => by
    obtain rfl := List.length_eq_zero_iff.mp same
    rfl
  | value :: values, front, [], same => nomatch same
  | value :: values, front, old :: back, same => by
    have bound : front.length < (front ++ old :: back).toArray.size := by simp
    have filled : (front ++ old :: back).toArray.setIfInBounds front.length value =
        (front ++ [value] ++ back).toArray := by
      simp
    have rest := State.fillFields_range' values (front ++ [value]) back (Nat.succ.inj same)
    rw [List.length_append, List.length_singleton, List.append_assoc, List.singleton_append] at rest
    rw [List.length_cons, List.range'_succ, List.zip_cons_cons, State.fillFields, if_pos bound,
      filled]
    simpa using rest

theorem State.fillFields_range (values : List Value) :
    State.fillFields (Array.replicate values.length (Value.bool false))
      (values.zip (List.range values.length)) = .ok values := by
  have filled := State.fillFields_range' values [] (List.replicate values.length (Value.bool false))
    (by simp)
  simpa [List.range_eq_range'] using filled

namespace Call.Runs

variable {program : Program} {limits : Limits} {call : Call} {low pc pc' : Nat}
  {stack : Array Value}

theorem loadParam {index : Nat} (has : call.site.Has pc (.loadParam index)) :
    call.Runs program limits low stack (orStuck call.args[index]?) pc (pc + 1) stack.push := by
  intro store loops _
  have args : (call.state store loops (pc + 1) stack).frame.args[index]? = call.args[index]? := by
    simp [Call.state, Call.frame]
  cases found : call.args[index]? with
  | some value =>
    refine follows_push ?_ rfl ⟨_, .refl, rfl⟩
    rw [step_eq has]
    simp only [State.exec, args, found]
  | none =>
    have stepped : (call.state store loops pc stack).step program limits =
        (call.state store loops (pc + 1) stack).outOfBounds "parameter" index := by
      rw [step_eq has]
      simp only [State.exec, args, found]
    exact .stuck (.of_step stepped rfl)

theorem loadLocal {sym : SymbolId} {slot : Nat} (has : call.site.Has pc (.loadLocal slot))
    (hasSlot : call.site.Slot sym slot) :
    call.Runs program limits low stack (do orStuck ((← get).locals sym)) pc (pc + 1)
      stack.push := by
  intro store loops _
  have slotted : call.site.locals[slot]? = some sym := hasSlot
  have locals : (call.state store loops (pc + 1) stack).frame.locals[slot]? =
      some (store.locals sym) := by
    simp [Call.state, Call.frame, slotted]
  change (call.state store loops pc stack).Follows program limits
    (orStuck (store.locals sym) store) _
  cases found : store.locals sym with
  | some value =>
    refine follows_push ?_ rfl ⟨_, .refl, rfl⟩
    rw [step_eq has]
    simp only [State.exec, State.loadLocal, locals, found]
  | none =>
    have stepped : (call.state store loops pc stack).step program limits =
        (call.state store loops (pc + 1) stack).fail (.uninitializedLocal slot) := by
      rw [step_eq has]
      simp only [State.exec, State.loadLocal, locals, found]
    exact .stuck (.of_step stepped rfl)

theorem boxOperand {op : Operator} {ty : Ty} {value : Value} (code : call.site.BoxCode op ty pc pc')
    (room : call.base ≤ stack.size) :
    call.Runs program limits low (stack.push value) (Pure.pure ()) pc pc'
      fun _ => stack.push (BinaryInstr.operand op ty value) := by
  by_cases boxed : op = .concat ∧ ty = .number
  · simp only [Site.BoxCode, if_pos boxed] at code
    obtain ⟨has, rfl⟩ := code
    simp only [BinaryInstr.operand, if_pos boxed]
    exact box has room
  · simp only [Site.BoxCode, if_neg boxed] at code
    obtain rfl := code
    simp only [BinaryInstr.operand, if_neg boxed]
    exact pure rfl

theorem binary {op : Operator} {lhsTy rhsTy : Ty} {lhs rhs : Value} {instr : BinaryInstr}
    (chosen : Lower.binaryInstr op lhsTy = .ok instr) (has : call.site.Has pc (.binary instr))
    (room : call.base ≤ stack.size) :
    call.Runs program limits low
      ((stack.push (BinaryInstr.operand op lhsTy lhs)).push (BinaryInstr.operand op rhsTy rhs))
      (orStuck (operate? op lhsTy rhsTy lhs rhs)) pc (pc + 1) stack.push := by
  rw [← BinaryInstr.apply_toOption chosen lhs rhs]
  generalize BinaryInstr.operand op lhsTy lhs = left
  generalize BinaryInstr.operand op rhsTy rhs = right
  intro store loops _
  have roomBelow : call.base ≤ (stack.push left).size := by
    rw [Array.size_push]
    omega
  have popped : (call.state store loops pc ((stack.push left).push right)).step program limits = _ :=
    step_eq has
  simp only [State.exec, State.binary] at popped
  rw [pop_push roomBelow, pop_push room] at popped
  cases applied : instr.apply left right with
  | ok value =>
    simp only [applied] at popped
    exact follows_push popped rfl ⟨_, .refl, rfl⟩
  | error error =>
    simp only [applied] at popped
    exact .stuck (.of_step popped rfl)

theorem generateList {first limit step : Value} (has : call.site.Has pc .generateList)
    (room : call.base ≤ stack.size) :
    call.Runs program limits low (((stack.push first).push limit).push step)
      (rangeOf limits first limit step) pc (pc + 1) stack.push := by
  intro store loops _
  have room₁ : call.base ≤ (stack.push first).size := by
    rw [Array.size_push]
    omega
  have room₂ : call.base ≤ ((stack.push first).push limit).size := by
    rw [Array.size_push]
    omega
  have popped : (call.state store loops pc (((stack.push first).push limit).push step)).step program
      limits = _ := step_eq has
  simp only [State.exec, State.generateList] at popped
  replace popped := popped.trans (popNumber_push room₂)
  cases step with
  | number step =>
    replace popped := popped.trans (popNumber_push room₁)
    cases limit with
    | number limit =>
      replace popped := popped.trans (popNumber_push room)
      cases first with
      | number first =>
        simp only [rangeOf]
        cases generated : Range.generate first limit step limits.maxRangeLength with
        | ok items => exact follows_push (by simp only [popped, generated]) rfl ⟨_, .refl, rfl⟩
        | error error =>
          simp only [generated] at popped
          exact .fail (.of_step popped rfl)
      | _ => exact .stuck (.of_step popped rfl)
    | _ => exact .stuck (.of_step popped rfl)
  | _ => exact .stuck (.of_step popped rfl)

theorem loadField {globals : Globals} {sym record : SymbolId} {id index : Nat} {value : Value}
    (kind : (globals.symbol sym).kind = .field record index)
    (has : call.site.Has pc (.loadField id index)) (room : call.base ≤ stack.size) :
    call.Runs program limits low (stack.push value) (orStuck (field? globals sym value)) pc (pc + 1)
      stack.push := by
  intro store loops _
  have popped : (call.state store loops pc (stack.push value)).step program limits = _ :=
    step_eq has
  simp only [State.exec, State.loadField] at popped
  replace popped := popped.trans (pop_push room)
  cases value with
  | record identity name fields values =>
    simp only [field?, kind]
    cases found : values[index]? with
    | some field => exact follows_push (by simp only [popped, found]) rfl ⟨_, .refl, rfl⟩
    | none =>
      simp only [found] at popped
      exact .stuck (.of_step popped rfl)
  | _ => exact .stuck (.of_step popped rfl)

theorem construct {globals : Globals} {sym : SymbolId} {index : Nat} {values : List Value}
    (found : program.records[index]? = some ⟨(globals.symbol sym).name,
      globals.names (globals.symbol sym).fields, List.range values.length⟩)
    (arity : (globals.symbol sym).fields.length = values.length)
    (has : call.site.Has pc (.construct index)) (room : call.base ≤ stack.size) :
    call.Runs program limits low (stack ++ values.toArray) (Meaning.construct globals sym values) pc
      (pc + 1) stack.push := by
  intro store loops _
  have popped : (call.state store loops pc (stack ++ values.toArray)).step program limits = _ :=
    step_eq has
  have names : (globals.names (globals.symbol sym).fields).length = values.length := by
    simp [Globals.names, arity]
  simp only [State.exec, Program.record, found, State.construct, List.length_range] at popped
  rw [popMany_append room] at popped
  simp only [names, State.fillFields_range] at popped
  exact follows_push popped rfl ⟨_, .refl, rfl⟩

end Call.Runs

end LetChain
