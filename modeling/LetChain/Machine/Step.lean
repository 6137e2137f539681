import LetChain.Machine.Operation
import LetChain.Machine.Range
import LetChain.Machine.State

/-! One instruction at a time. -/

namespace LetChain

namespace State

def loadLocal (state : State) (limits : Limits) (slot : Nat) : Progress :=
  match state.frame.locals[slot]? with
  | some (some value) => state.push limits value
  | some none => state.fail (.uninitializedLocal slot)
  | none => state.outOfBounds "local" slot

def storeLocal (state : State) (slot : Nat) : Progress :=
  state.pop fun value state =>
    let ⟨⟨routine, args, locals, iterators, base, pc⟩, callers, machine, sink⟩ := state
    if slot < locals.size then
      .running ⟨⟨routine, args, locals.setIfInBounds slot (some value), iterators, base, pc⟩,
        callers, machine, sink⟩
    else
      outOfBounds ⟨⟨routine, args, locals, iterators, base, pc⟩, callers, machine, sink⟩
        "local" slot

def loadField (state : State) (limits : Limits) (index : Nat) : Progress :=
  state.pop fun value state =>
    match value with
    | .record _ _ _ values =>
      match values[index]? with
      | some value => state.push limits value
      | none => state.outOfBounds "field" index
    | other => state.fail (.mismatch "load.field" "record" other)

def fillFields (values : Array Value) : List (Value × Nat) → Except Fault (List Value)
  | [] => .ok values.toList
  | (value, index) :: rest =>
    if index < values.size then fillFields (values.setIfInBounds index value) rest
    else .error (.unknownField index)

/-- Makes a record, whose fields are `false` unless operands fill them. -/
def construct (state : State) (limits : Limits) (layout : RecordLayout) : Progress :=
  state.popMany layout.order.length fun args state =>
    let unfilled := Array.replicate layout.fields.length (Value.bool false)
    match fillFields unfilled (args.toList.zip layout.order) with
    | .error fault => state.stop (.fault fault)
    | .ok values =>
      let ⟨frame, callers, ⟨stack, depth, openIterators, made⟩, sink⟩ := state
      push ⟨frame, callers, ⟨stack, depth, openIterators, made + 1⟩, sink⟩ limits
        (.record (.made made) layout.name layout.fields values)

def call (state : State) (limits : Limits) (routine : Routine) : Progress :=
  state.popMany routine.params fun args state =>
    let ⟨frame, callers, ⟨stack, depth, openIterators, made⟩, sink⟩ := state
    if limits.maxCallDepth ≤ depth then
      fail ⟨frame, callers, ⟨stack, depth, openIterators, made⟩, sink⟩
        (.callDepthExceeded limits.maxCallDepth)
    else
      .running ⟨Frame.enter routine args stack.size, frame :: callers,
        ⟨stack, depth + 1, openIterators, made⟩, sink⟩

/-- Ends the current call. Its result is its top operand, and the others are dropped; a call that
waits needs a result. -/
def ret (state : State) (limits : Limits) : Progress :=
  let ⟨frame, callers, ⟨stack, depth, openIterators, made⟩, sink⟩ := state
  let value := if frame.base < stack.size then stack.back? else none
  let machine := Machine.leave ⟨stack.shrink frame.base, depth, openIterators, made⟩ frame
  match callers with
  | [] => .returned value machine sink
  | caller :: callers =>
    let state : State := ⟨caller, callers, machine, sink⟩
    match value with
    | some value => state.push limits value
    | none => state.underflow

def branchIfFalse (state : State) (target : Label) : Progress :=
  state.pop fun value state =>
    match value with
    | .bool true => .running state
    | .bool false => state.jump target
    | other => state.fail (.mismatch "br.false" "bool" other)

def binary (state : State) (limits : Limits) (op : BinaryInstr) : Progress :=
  state.pop fun rhs state =>
    state.pop fun lhs state =>
      match op.apply lhs rhs with
      | .ok value => state.push limits value
      | .error error => state.fail error

def generateList (state : State) (limits : Limits) : Progress :=
  state.popNumber "generate_list" fun step state =>
    state.popNumber "generate_list" fun limit state =>
      state.popNumber "generate_list" fun first state =>
        match Range.generate first limit step limits.maxRangeLength with
        | .ok items => state.push limits (.seq items)
        | .error error => state.fail error

def writeLine (state : State) : Progress :=
  state.pop fun value state =>
    let ⟨frame, callers, machine, sink⟩ := state
    match sink.write (value.render ++ "\n") with
    | (sink, true) => .running ⟨frame, callers, machine, sink⟩
    | (sink, false) => fail ⟨frame, callers, machine, sink⟩ .output

def acquire (state : State) (slot : Nat) : Progress :=
  state.pop fun value state =>
    match value with
    | .seq items =>
      let ⟨⟨routine, args, locals, iterators, base, pc⟩, callers,
        ⟨stack, depth, openIterators, made⟩, sink⟩ := state
      match iterators[slot]? with
      | none =>
        outOfBounds ⟨⟨routine, args, locals, iterators, base, pc⟩, callers,
          ⟨stack, depth, openIterators, made⟩, sink⟩ "iterator" slot
      | some previous =>
        let closed := if previous.isSome then 1 else 0
        .running ⟨⟨routine, args, locals, iterators.setIfInBounds slot (some items), base, pc⟩,
          callers, ⟨stack, depth, openIterators + 1 - closed, made⟩, sink⟩
    | other => state.fail (.mismatch "iter.acquire" "sequence" other)

def advance (state : State) (limits : Limits) (slot : Nat) (exit : Label) : Progress :=
  let ⟨⟨routine, args, locals, iterators, base, pc⟩, callers, machine, sink⟩ := state
  match iterators[slot]? with
  | some (some (item :: rest)) =>
    push ⟨⟨routine, args, locals, iterators.setIfInBounds slot (some rest), base, pc⟩, callers,
      machine, sink⟩ limits item
  | some (some []) =>
    jump ⟨⟨routine, args, locals, iterators, base, pc⟩, callers, machine, sink⟩ exit
  | _ =>
    fail ⟨⟨routine, args, locals, iterators, base, pc⟩, callers, machine, sink⟩
      (.iteratorNotAcquired slot)

def release (state : State) (slot : Nat) : Progress :=
  let ⟨⟨routine, args, locals, iterators, base, pc⟩, callers,
    ⟨stack, depth, openIterators, made⟩, sink⟩ := state
  match iterators[slot]? with
  | some (some _) =>
    .running ⟨⟨routine, args, locals, iterators.setIfInBounds slot none, base, pc⟩, callers,
      ⟨stack, depth, openIterators - 1, made⟩, sink⟩
  | _ =>
    .running ⟨⟨routine, args, locals, iterators, base, pc⟩, callers,
      ⟨stack, depth, openIterators, made⟩, sink⟩

def exec (program : Program) (limits : Limits) (state : State) : Instr → Progress
  | .pushNumber value => state.push limits (.number value)
  | .pushText value => state.push limits (.text value)
  | .pushBool value => state.push limits (.bool value)
  | .loadParam index =>
    match state.frame.args[index]? with
    | some value => state.push limits value
    | none => state.outOfBounds "parameter" index
  | .loadLocal slot => state.loadLocal limits slot
  | .storeLocal slot => state.storeLocal slot
  | .loadField _ index => state.loadField limits index
  | .construct record =>
    match program.record record with
    | .ok layout => state.construct limits layout
    | .error fault => state.stop (.fault fault)
  | .call routine =>
    match program.routine routine with
    | .ok routine => state.call limits routine
    | .error fault => state.stop (.fault fault)
  | .branch target => state.jump target
  | .branchIfFalse target => state.branchIfFalse target
  | .mark _ => .running state
  | .binary op => state.binary limits op
  | .box => state.pop fun value state => state.push limits (.boxed value)
  | .pop => state.pop fun _ state => .running state
  | .generateList => state.generateList limits
  | .writeLine => state.writeLine
  | .acquire slot => state.acquire slot
  | .advance slot exit => state.advance limits slot exit
  | .release slot => state.release slot
  | .ret => state.ret limits

def step (program : Program) (limits : Limits) (state : State) : Progress :=
  let ⟨⟨routine, args, locals, iterators, base, pc⟩, callers, machine, sink⟩ := state
  match routine.code[pc]? with
  | some instr =>
    exec program limits
      ⟨⟨routine, args, locals, iterators, base, pc + 1⟩, callers, machine, sink⟩ instr
  | none =>
    outOfBounds ⟨⟨routine, args, locals, iterators, base, pc⟩, callers, machine, sink⟩
      "instruction" pc

end State

end LetChain
