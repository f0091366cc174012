import TieredVM.Session.Perform
import TieredVM.Proofs.Machine.Moves
import TieredVM.Proofs.Machine.Resolve
import TieredVM.Proofs.Machine.Run
/-!
All that a machine goes through: the states between commands, inside frames that are held open, and
in the middle of runs. A ledger is kept of the frames that are open and of what has happened to
calls.
-/
set_option autoImplicit false

namespace TieredVM

def Caller.functions (callers : List Caller) : List Function :=
  callers.map (·.tier.function)

@[simp] theorem Caller.length_functions (callers : List Caller) :
    (functions callers).length = callers.length :=
  List.length_map _

inductive Situation where
  | idle (state : State)
  | busy (execution : Execution)

namespace Situation

def state : Situation → State
  | idle state => state
  | busy execution => execution.state

def calls : Situation → List Function
  | idle _ => []
  | busy execution => execution.active.tier.function :: Caller.functions execution.callers

end Situation

def Progress.situation : Progress → Situation
  | .running execution => .busy execution
  | .ended _ state => .idle state

@[simp] theorem Progress.state_situation (progress : Progress) :
    progress.situation.state = progress.state := by
  cases progress <;> rfl

structure Ledger where
  /-- The functions whose frames are held open by commands, the innermost first. -/
  frames : List Function := []
  entered : Nat := 0
  /-- The functions whose calls were counted, by number and with the earliest first. -/
  resolved : List Nat := []

def Ledger.pass (ledger : Ledger) (before after : Situation) (resolved : List Nat) : Ledger where
  frames := ledger.frames
  entered := ledger.entered + (after.calls.length - before.calls.length)
  resolved := ledger.resolved ++ resolved

namespace Machine

/-- The ways to run a function. The numbers are those of the functions whose calls are counted. -/
inductive Starts (machine : Machine) (state : State) : List Nat → Progress → Prop
  | call (id : Nat) (args : Array Int64) :
    Starts machine state [id] (machine.startCall id args [] state)
  | callee {id : Nat} {function : Function} {callee : Callee} (args : Array Int64) :
    machine.program.function? id = some function → callee.Runs machine.program id function →
    Starts machine state [] (machine.start callee args [] state)
  | code {id : Nat} {function : Function} {code : ThreadedCode} (args : Array Int64) :
    machine.program.function? id = some function →
    ThreadedCode.translate machine.program function = .ok code →
    Starts machine state [] (enter (.compiled code) args [] state)

/-- What a machine comes to, with the ledger of what led there. -/
inductive Visits (machine : Machine) : Ledger → Situation → Prop
  | initial : Visits machine {} (.idle (State.initial machine.program))
  | started {ledger : Ledger} {state : State} {resolved : List Nat} {progress : Progress} :
    Visits machine ledger (.idle state) → machine.Starts state resolved progress →
    Visits machine (ledger.pass (.idle state) progress.situation resolved) progress.situation
  | stepped {ledger : Ledger} {execution : Execution} :
    Visits machine ledger (.busy execution) →
    Visits machine
      (ledger.pass (.busy execution) (machine.step execution).situation
        (machine.called? execution).toList)
      (machine.step execution).situation
  | resolved {ledger : Ledger} {state next : State} {id : Nat} {callee : Callee} :
    Visits machine ledger (.idle state) → machine.resolve id state = some (callee, next) →
    Visits machine { ledger with resolved := ledger.resolved ++ [id] } (.idle next)
  | entered {ledger : Ledger} {state : State} {id : Nat} {function : Function}
    (args : Array Int64) :
    Visits machine ledger (.idle state) → machine.program.function? id = some function →
    Visits machine
      { ledger with frames := function :: ledger.frames, entered := ledger.entered + 1 }
      (.idle (state.enter function args).2)
  | left {function : Function} {frames : List Function} {entered : Nat} {resolved : List Nat}
    {state : State} :
    Visits machine ⟨function :: frames, entered, resolved⟩ (.idle state) →
    Visits machine ⟨frames, entered, resolved⟩ (.idle state.leave)
  /-- The host is another one now, or it was asked for something in between. -/
  | hosted {ledger : Ledger} {state : State} (host : Host) (timesTold textsGiven : Nat) :
    Visits machine ledger (.idle state) →
    Visits machine ledger (.idle { state with host, timesTold, textsGiven })
  | wrote {ledger : Ledger} {state : State} (text : List UInt8) :
    Visits machine ledger (.idle state) →
    Visits machine ledger (.idle (state.record (.output text)))
  | noted {ledger : Ledger} {state : State} (text : String) :
    Visits machine ledger (.idle state) →
    Visits machine ledger (.idle (state.record (.diagnostic text)))

variable {machine : Machine} {ledger : Ledger} {state final : State} {fuel : Nat}
  {outcome : Outcome}

def keep (machine : Machine) : Nat → Progress → Ledger → Ledger
  | _, .ended _ _, ledger => ledger
  | 0, .running _, ledger => ledger
  | count + 1, .running execution, ledger =>
    keep machine count (machine.step execution)
      (ledger.pass (.busy execution) (machine.step execution).situation
        (machine.called? execution).toList)

theorem Visits.advance {progress : Progress} (h : machine.Visits ledger progress.situation)
    (count : Nat) :
    machine.Visits (machine.keep count progress ledger)
      (machine.advance count progress).situation := by
  induction count generalizing ledger progress with
  | zero => cases progress <;> exact h
  | succ count ih =>
    cases progress with
    | ended outcome state => exact h
    | running execution => exact ih (.stepped h)

theorem frames_keep (count : Nat) (progress : Progress) (ledger : Ledger) :
    (machine.keep count progress ledger).frames = ledger.frames := by
  induction count generalizing ledger progress with
  | zero => cases progress <;> rfl
  | succ count ih =>
    cases progress with
    | ended outcome state => rfl
    | running execution => exact ih _ _

def Revisits (machine : Machine) (ledger : Ledger) (state : State) : Prop :=
  ∃ later : Ledger, later.frames = ledger.frames ∧ machine.Visits later (.idle state)

theorem Visits.revisits (h : machine.Visits ledger (.idle state)) :
    machine.Revisits ledger state :=
  ⟨ledger, rfl, h⟩

theorem Visits.run {resolved : List Nat} {progress : Progress}
    (h : machine.Visits ledger (.idle state)) (hstarts : machine.Starts state resolved progress)
    (hrun : machine.run fuel progress = some (outcome, final)) : machine.Revisits ledger final := by
  have hvisits := (h.started hstarts).advance fuel
  rw [run_eq_some_iff.1 hrun] at hvisits
  refine ⟨_, ?_, hvisits⟩
  exact frames_keep fuel progress _

theorem Visits.runWithArgs {id : Nat} {args : Array Int64}
    (h : machine.Visits ledger (.idle state))
    (hrun : machine.runWithArgs fuel id args state = some (outcome, final)) :
    machine.Revisits ledger final := by
  unfold Machine.runWithArgs startWithArgs at hrun
  split at hrun
  · rw [run_ended] at hrun
    cases hrun
    exact h.revisits
  · split at hrun
    · exact h.run (.call id args) hrun
    · rw [run_ended] at hrun
      cases hrun
      exact h.revisits

theorem Visits.runMain (h : machine.Visits ledger (.idle state))
    (hrun : machine.runMain fuel state = some (outcome, final)) :
    machine.Revisits ledger final := by
  unfold Machine.runMain startMain at hrun
  split at hrun
  · rw [run_ended] at hrun
    cases hrun
    exact h.revisits
  · exact h.runWithArgs hrun

theorem Visits.interpret {id : Nat} {args : Array Int64} (h : machine.Visits ledger (.idle state))
    (hrun : machine.invoke fuel (.interpreted id) args state = some (outcome, final)) :
    machine.Revisits ledger final := by
  cases hfunction : machine.program.function? id with
  | none =>
    simp only [invoke, start, hfunction, stop, run_ended] at hrun
    cases hrun
    exact h.revisits
  | some function => exact h.run (.callee args hfunction .interpreted) hrun

end Machine
end TieredVM
