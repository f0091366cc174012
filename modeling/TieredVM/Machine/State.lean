import TieredVM.Machine.Config
import TieredVM.Machine.Threaded
set_option autoImplicit false

namespace TieredVM

structure FrameLink where
  function : Nat
  onHeap : Bool
  deriving DecidableEq, Repr

structure FrameStats where
  inlineFrames : Nat := 0
  heapAllocations : Nat := 0
  heapReleases : Nat := 0
  deriving DecidableEq, Repr

structure TierSlot where
  /-- The calls so far; counting stops when the function is due to be compiled. -/
  invoked : Nat := 0
  entry : Option ThreadedCode := none
  attempts : Nat := 0
  failed : Bool := false
  deriving DecidableEq, Repr

structure TraceRecord where
  function : Nat
  name : String
  offset : Nat
  opcode : Opcode
  depth : Nat
  callDepth : Nat
  deriving DecidableEq, Repr

inductive Event where
  | output (text : List UInt8)
  | diagnostic (text : String)
  | trace (record : TraceRecord)
  | compile (function : String)
  /-- Compiled code was entered, while the given calls were active. -/
  | invoke (function : String) (args : Array Int64) (chain : List FrameLink)
  deriving DecidableEq, Repr

/-- All that a host ever answers, to each kind of question in the order in which it is asked. -/
structure Host where
  times : Nat → Int64
  /-- Why a text is not written out, unless it is. -/
  refusals : Nat → Option String

namespace Host

def telling (times : Nat → Int64) : Host where
  times
  refusals _ := none

def closedMessage : String := "output closed"

/-- Knows of one time only, and of output that is closed from the start or not at all. -/
def recording (clock : Int64) (outputClosed : Bool) : Host where
  times _ := clock
  refusals _ := if outputClosed then some closedMessage else none

end Host

structure State where
  tiers : Array TierSlot
  /-- The active calls, the innermost first. -/
  chain : List FrameLink := []
  stats : FrameStats := {}
  host : Host := .recording 0 false
  timesTold : Nat := 0
  textsGiven : Nat := 0
  journal : Array Event := #[]

namespace State

def initial (program : Program) : State :=
  { tiers := program.functions.map fun _ => {} }

def record (state : State) (event : Event) : State :=
  { state with journal := state.journal.push event }

def time (state : State) : Int64 × State :=
  (state.host.times state.timesTold, { state with timesTold := state.timesTold + 1 })

def given (state : State) : State :=
  { state with textsGiven := state.textsGiven + 1 }

def print (state : State) (text : List UInt8) : Option String × State :=
  match state.host.refusals state.textsGiven with
  | some message => (some message, state.given)
  | none => (none, state.given.record (.output text))

def enter (state : State) (function : Function) (args : Array Int64) : Frame × State :=
  let frame := Frame.enter function args
  let stats :=
    if frame.onHeap then
      { state.stats with heapAllocations := state.stats.heapAllocations + 1 }
    else
      { state.stats with inlineFrames := state.stats.inlineFrames + 1 }
  (frame, { state with stats, chain := ⟨function.id, frame.onHeap⟩ :: state.chain })

def leave (state : State) : State :=
  match state.chain with
  | [] => state
  | link :: chain =>
    if link.onHeap then
      let stats := { state.stats with heapReleases := state.stats.heapReleases + 1 }
      { state with stats, chain }
    else
      { state with chain }

def unwind (state : State) : Nat → State
  | 0 => state
  | count + 1 => state.leave.unwind count

def callChain (state : State) : List FrameLink := state.chain.reverse

end State

def Event.outputOf (events : List Event) : List UInt8 :=
  events.flatMap fun
    | output text => text
    | _ => []

def Event.diagnosticsOf (events : List Event) : List String :=
  events.filterMap fun
    | diagnostic text => some text
    | _ => none

def Event.traceOf (events : List Event) : List TraceRecord :=
  events.filterMap fun
    | trace record => some record
    | _ => none

end TieredVM
