import TieredVM.Machine.Interpreter
import TieredVM.Machine.Tiering
/-!
Running programs step by step. An execution is the stack of its calls, each at a place in its
function and with a frame of its own; a step runs one instruction of the innermost call and does
what it asks for.
-/
set_option autoImplicit false

namespace TieredVM

inductive Tier where
  | interpreted (function : Function)
  | compiled (code : ThreadedCode)
  deriving DecidableEq, Repr

namespace Tier

def function : Tier → Function
  | interpreted function => function
  | compiled code => code.function

/-- The place in the bytes of the code: the place itself, or the offset of the operation. -/
def offset : Tier → Nat → Nat
  | interpreted _, place => place
  | compiled code, place => code.offset place

def site (tier : Tier) (place : Nat) : Site := ⟨tier.function, tier.offset place⟩

def opcode? : Tier → Nat → Option Opcode
  | interpreted function, place => function.code[place]?.bind Opcode.ofByte?
  | compiled code, place => do
    let opAt ← code.ops[place]?
    let byte ← code.function.code[opAt.offset]?
    Opcode.ofByte? byte

def run (tier : Tier) (dispatch : Dispatch) (program : Program) (place : Nat) (frame : Frame) :
    Except Stop Request :=
  match tier with
  | interpreted function => interpret dispatch program ⟨function, place⟩ frame
  | compiled code => code.step program place frame

end Tier

structure Activation where
  tier : Tier
  place : Nat
  frame : Frame
  deriving DecidableEq, Repr

/-- A call that waits for the result of another one, which it has called at `place`. -/
structure Caller where
  tier : Tier
  place : Nat
  next : Nat
  base : Nat
  frame : Frame
  deriving DecidableEq, Repr

structure Execution where
  state : State
  active : Activation
  callers : List Caller

inductive Progress where
  | running (execution : Execution)
  | ended (outcome : Outcome) (state : State)

def Progress.state : Progress → State
  | running execution => execution.state
  | ended _ state => state

namespace Machine

def observe (machine : Machine) (state : State) (tier : Tier) (place depth : Nat) : State :=
  if machine.config.trace then
    match tier.opcode? place with
    | none => state
    | some opcode =>
      state.record (.trace {
        function := tier.function.id
        name := tier.function.name
        offset := tier.offset place
        opcode
        depth
        callDepth := state.chain.length })
  else
    state

/-- Ends a run with the given number of active calls. -/
def stop (reason : Stop) (calls : Nat) (state : State) : Progress :=
  .ended (.error reason) (state.unwind calls)

def enter (tier : Tier) (args : Array Int64) (callers : List Caller) (state : State) : Progress :=
  let (frame, state) := state.enter tier.function args
  .running { state, active := { tier, place := 0, frame }, callers }

def start (machine : Machine) (callee : Callee) (args : Array Int64) (callers : List Caller)
    (state : State) : Progress :=
  match callee with
  | .interpreted id =>
    match machine.program.function? id with
    | none => stop (.fault (.unknownFunction id)) callers.length state
    | some function => enter (.interpreted function) args callers state
  | .compiled code =>
    let state :=
      if machine.compiler.audited then
        state.record (.invoke code.function.name args state.callChain)
      else
        state
    enter (.compiled code) args callers state

def startCall (machine : Machine) (id : Nat) (args : Array Int64) (callers : List Caller)
    (state : State) : Progress :=
  match machine.resolve id state with
  | none => stop (.fault (.unknownFunction id)) callers.length state
  | some (callee, state) => machine.start callee args callers state

/-- Goes on with a call after the one that it has made has ended with a value. -/
def resume (caller : Caller) (value : Int64) (callers : List Caller) (state : State) : Progress :=
  let ⟨tier, place, next, base, frame⟩ := caller
  match (tier.site place).grant ((frame.truncate base).push value) with
  | .error reason => stop reason (callers.length + 1) state
  | .ok frame => .running { state, active := { tier, place := next, frame }, callers }

def finish (value : Int64) (callers : List Caller) (state : State) : Progress :=
  match callers with
  | [] => .ended (.ok value) state.leave
  | caller :: callers => resume caller value callers state.leave

def serve (machine : Machine) (tier : Tier) (place : Nat) (callers : List Caller) (state : State) :
    Request → Progress
  | .proceed next frame => .running { state, active := { tier, place := next, frame }, callers }
  | .print text next frame =>
    match state.print text with
    | (some message, state) => stop (.fault (.output message)) (callers.length + 1) state
    | (none, state) => .running { state, active := { tier, place := next, frame }, callers }
  | .time next frame =>
    let (time, state) := state.time
    match (tier.site place).grant (frame.push time) with
    | .error reason => stop reason (callers.length + 1) state
    | .ok frame => .running { state, active := { tier, place := next, frame }, callers }
  | .call function base next frame =>
    match (tier.site place).grant (frame.above base) with
    | .error reason => stop reason (callers.length + 1) state
    | .ok args =>
      machine.startCall function args ({ tier, place, next, base, frame } :: callers) state
  | .finish value => finish value callers state

def asked (machine : Machine) (execution : Execution) : Except Stop Request :=
  execution.active.tier.run machine.config.dispatch machine.program execution.active.place
    execution.active.frame

def asksTime (machine : Machine) (execution : Execution) : Bool :=
  match machine.asked execution with
  | .ok (.time _ _) => true
  | _ => false

def step (machine : Machine) (execution : Execution) : Progress :=
  let ⟨state, ⟨tier, place, frame⟩, callers⟩ := execution
  let state := machine.observe state tier place frame.depth
  match tier.run machine.config.dispatch machine.program place frame with
  | .error reason => stop reason (callers.length + 1) state
  | .ok request => machine.serve tier place callers state request

def run (machine : Machine) : Nat → Progress → Option (Outcome × State)
  | _, .ended outcome state => some (outcome, state)
  | 0, .running _ => none
  | fuel + 1, .running execution => run machine fuel (machine.step execution)

end Machine
end TieredVM
