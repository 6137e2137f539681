import LetChain.Machine.Step

/-! Whole runs. Fuel bounds the number of instructions. -/

namespace LetChain

def State.run (program : Program) (limits : Limits) : Nat → State → Progress
  | 0, state => .running state
  | fuel + 1, state =>
    match state.step program limits with
    | .running state => run program limits fuel state
    | done => done

namespace Machine

def start (machine : Machine) (limits : Limits) (routine : Routine) (args : List Value)
    (sink : Sink) : Progress :=
  let ⟨_, depth, openIterators, made⟩ := machine
  if limits.maxCallDepth ≤ depth then
    .stopped (.error (.callDepthExceeded limits.maxCallDepth)) ⟨#[], depth, openIterators, made⟩
      sink
  else
    .running ⟨Frame.enter routine args.toArray 0, [], ⟨#[], depth + 1, openIterators, made⟩, sink⟩

def runRoutine (machine : Machine) (program : Program) (limits : Limits) (fuel : Nat)
    (routine : Routine) (args : List Value) (sink : Sink) : Progress :=
  match machine.start limits routine args sink with
  | .running state => state.run program limits fuel
  | done => done

def execute (machine : Machine) (program : Program) (limits : Limits) (fuel : Nat) (sink : Sink) :
    Progress :=
  machine.runRoutine program limits fuel program.entry [] sink

def call (machine : Machine) (program : Program) (limits : Limits) (fuel : Nat) (index : Nat)
    (args : List Value) : Progress :=
  match program.routine index with
  | .ok routine => machine.runRoutine program limits fuel routine args .unlimited
  | .error fault => .stopped (.fault fault) machine .unlimited

end Machine

end LetChain
