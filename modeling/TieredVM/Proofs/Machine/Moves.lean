import TieredVM.Proofs.Machine.Alignment
import TieredVM.Proofs.Machine.Resolve
set_option autoImplicit false

namespace TieredVM

def Event.requestsOf (events : List Event) : List String :=
  events.filterMap fun
    | compile function => some function
    | _ => none

@[simp] theorem Event.requestsOf_append (first second : List Event) :
    requestsOf (first ++ second) = requestsOf first ++ requestsOf second := by
  simp [requestsOf]

/-- Slots and frames are as before, and the journal has grown: the compiler was asked for the given
functions, and the given instructions were about to run. -/
structure State.Reports (requests : List String) (records : List TraceRecord)
    (before after : State) : Prop where
  tiers : after.tiers = before.tiers
  chain : after.chain = before.chain
  stats : after.stats = before.stats
  requests : Event.requestsOf after.journal.toList =
    Event.requestsOf before.journal.toList ++ requests
  trace : Event.traceOf after.journal.toList = Event.traceOf before.journal.toList ++ records

namespace State.Reports

variable {requests requests' : List String} {records records' : List TraceRecord}
  {first second third : State}

theorem refl (state : State) : Reports [] [] state state :=
  ⟨rfl, rfl, rfl, (List.append_nil _).symm, (List.append_nil _).symm⟩

theorem trans (h : Reports requests records first second)
    (h' : Reports requests' records' second third) :
    Reports (requests ++ requests') (records ++ records') first third where
  tiers := h'.tiers.trans h.tiers
  chain := h'.chain.trans h.chain
  stats := h'.stats.trans h.stats
  requests := by rw [h'.requests, h.requests, List.append_assoc]
  trace := by rw [h'.trace, h.trace, List.append_assoc]

theorem record (state : State) (event : Event) :
    Reports (Event.requestsOf [event]) (Event.traceOf [event]) state (state.record event) :=
  ⟨rfl, rfl, rfl, by simp [State.record], by simp [State.record]⟩

theorem also (h : Reports requests records first second) (event : Event)
    (hrequests : Event.requestsOf [event] = []) (htrace : Event.traceOf [event] = []) :
    Reports requests records first (second.record event) := by
  have hrecord := h.trans (.record second event)
  rwa [hrequests, htrace, List.append_nil, List.append_nil] at hrecord

theorem given (h : Reports requests records first second) :
    Reports requests records first second.given :=
  ⟨h.tiers, h.chain, h.stats, h.requests, h.trace⟩

theorem time (h : Reports requests records first second) :
    Reports requests records first second.time.2 :=
  ⟨h.tiers, h.chain, h.stats, h.requests, h.trace⟩

end State.Reports

structure State.Keeps (before after : State) : Prop where
  chain : after.chain = before.chain
  stats : after.stats = before.stats
  trace : Event.traceOf after.journal.toList = Event.traceOf before.journal.toList

theorem State.Keeps.trans {first second third : State} (h : first.Keeps second)
    (h' : second.Keeps third) : first.Keeps third :=
  ⟨h'.chain.trans h.chain, h'.stats.trans h.stats, h'.trace.trans h.trace⟩

theorem State.Reports.keeps {requests : List String} {before after : State}
    (h : State.Reports requests [] before after) : before.Keeps after :=
  ⟨h.chain, h.stats, by rw [h.trace, List.append_nil]⟩

inductive Stop.Denied : Stop → Prop
  | corrupt (function : String) (offset : Nat) : Denied (.fault (.corruptFrame function offset))
  | outOfRange : Denied .outOfRange

theorem Site.denied_of_grant {α : Type} {site : Site} {access : Except Denial α} {reason : Stop}
    (h : site.grant access = .error reason) : reason.Denied := by
  rcases access with (_ | _) | value
  · cases h
    exact .corrupt _ _
  · cases h
    exact .outOfRange
  · cases h

def Request.goesOn : Request → Bool
  | proceed _ _ | print _ _ _ | time _ _ => true
  | call _ _ _ _ | finish _ => false

def Execution.record (execution : Execution) (opcode : Opcode) : TraceRecord where
  function := execution.active.tier.function.id
  name := execution.active.tier.function.name
  offset := execution.active.tier.offset execution.active.place
  opcode := opcode
  depth := execution.active.frame.depth
  callDepth := execution.state.chain.length

namespace Machine

variable {machine : Machine}

def observed (machine : Machine) (execution : Execution) : List TraceRecord :=
  if machine.config.trace then
    ((execution.active.tier.opcode? execution.active.place).map execution.record).toList
  else
    []

def called? (machine : Machine) (execution : Execution) : Option Nat :=
  match machine.asked execution with
  | .ok (.call function base _ frame) => (frame.above base).toOption.map fun _ => function
  | _ => none

inductive Stops (machine : Machine) (execution : Execution) : Stop → Prop
  | failed {reason : Stop} : machine.asked execution = .error reason →
    Stops machine execution reason
  | refused {text : List UInt8} {next : Nat} {frame : Frame} {message : String} :
    machine.asked execution = .ok (.print text next frame) →
    execution.state.host.refusals execution.state.textsGiven = some message →
    Stops machine execution (.fault (.output message))
  | denied {reason : Stop} : reason.Denied → Stops machine execution reason

inductive Moves (machine : Machine) (execution : Execution) : Progress → Prop
  | proceeds {state : State} {request : Request} (place : Nat) (frame : Frame) :
    State.Reports [] (machine.observed execution) execution.state state →
    machine.called? execution = none →
    machine.asked execution = .ok request → request.goesOn = true →
    Moves machine execution
      (.running ⟨state, ⟨execution.active.tier, place, frame⟩, execution.callers⟩)
  | stops {state : State} {reason : Stop} :
    State.Reports [] (machine.observed execution) execution.state state →
    machine.called? execution = none → machine.Stops execution reason →
    Moves machine execution (stop reason (execution.callers.length + 1) state)
  | misses {state : State} {id : Nat} :
    State.Reports [] (machine.observed execution) execution.state state →
    machine.called? execution = some id → machine.resolve id state = none →
    Moves machine execution
      (stop (.fault (.unknownFunction id)) (execution.callers.length + 1) state)
  | calls {state after : State} {id base next : Nat} {frame : Frame} {callee : Callee}
    (args : Array Int64) (caller : Caller) :
    State.Reports [] (machine.observed execution) execution.state state →
    machine.called? execution = some id →
    machine.asked execution = .ok (.call id base next frame) →
    machine.resolve id state = some (callee, after) → caller.tier = execution.active.tier →
    Moves machine execution (machine.start callee args (caller :: execution.callers) after)
  | resumes {state : State} {value : Int64} {caller : Caller} {callers : List Caller}
    (frame : Frame) :
    State.Reports [] (machine.observed execution) execution.state state →
    machine.called? execution = none → machine.asked execution = .ok (.finish value) →
    execution.callers = caller :: callers →
    Moves machine execution (.running ⟨state.leave, ⟨caller.tier, caller.next, frame⟩, callers⟩)
  | returns {state : State} {value : Int64} :
    State.Reports [] (machine.observed execution) execution.state state →
    machine.called? execution = none → machine.asked execution = .ok (.finish value) →
    execution.callers = [] → Moves machine execution (.ended (.ok value) state.leave)

theorem observe_reports (machine : Machine) (execution : Execution) :
    State.Reports [] (machine.observed execution) execution.state
      (machine.observe execution.state execution.active.tier execution.active.place
        execution.active.frame.depth) := by
  unfold observe observed
  split
  · cases execution.active.tier.opcode? execution.active.place with
    | none => exact .refl execution.state
    | some opcode => exact .record execution.state (.trace (execution.record opcode))
  · exact .refl execution.state

theorem observe_host (machine : Machine) (tier : Tier) (place depth : Nat) (state : State) :
    (machine.observe state tier place depth).host = state.host ∧
      (machine.observe state tier place depth).timesTold = state.timesTold ∧
      (machine.observe state tier place depth).textsGiven = state.textsGiven := by
  unfold observe
  split
  · cases tier.opcode? place <;> exact ⟨rfl, rfl, rfl⟩
  · exact ⟨rfl, rfl, rfl⟩

theorem step_of_error {execution : Execution} {reason : Stop}
    (h : machine.asked execution = .error reason) :
    machine.step execution = stop reason (execution.callers.length + 1)
      (machine.observe execution.state execution.active.tier execution.active.place
        execution.active.frame.depth) := by
  obtain ⟨state, ⟨tier, place, frame⟩, callers⟩ := execution
  simp only [asked] at h
  simp only [step, h]

theorem step_of_ok {execution : Execution} {request : Request}
    (h : machine.asked execution = .ok request) :
    machine.step execution =
      machine.serve execution.active.tier execution.active.place execution.callers
        (machine.observe execution.state execution.active.tier execution.active.place
          execution.active.frame.depth) request := by
  obtain ⟨state, ⟨tier, place, frame⟩, callers⟩ := execution
  simp only [asked] at h
  simp only [step, h]

theorem step_moves (execution : Execution) : machine.Moves execution (machine.step execution) := by
  have hobserve := machine.observe_reports execution
  cases hasked : machine.asked execution with
  | error reason =>
    rw [step_of_error hasked]
    exact .stops hobserve (by simp only [called?, hasked]) (.failed hasked)
  | ok request =>
    obtain ⟨hhost, -, hgiven⟩ := machine.observe_host execution.active.tier execution.active.place
      execution.active.frame.depth execution.state
    rw [step_of_ok hasked]
    generalize machine.observe execution.state execution.active.tier execution.active.place
      execution.active.frame.depth = state at hobserve hhost hgiven
    cases request with
    | proceed next after =>
      exact .proceeds next after hobserve (by simp only [called?, hasked]) hasked rfl
    | print text next after =>
      have hcalled : machine.called? execution = none := by simp only [called?, hasked]
      simp only [serve]
      split
      · rename_i message printed hprint
        obtain ⟨hrefusal, rfl⟩ := State.print_eq_some hprint
        rw [hhost, hgiven] at hrefusal
        exact .stops hobserve.given hcalled (.refused hasked hrefusal)
      · rename_i printed hprint
        obtain ⟨-, rfl⟩ := State.print_eq_none hprint
        exact .proceeds next after (hobserve.given.also (.output text) rfl rfl) hcalled hasked rfl
    | time next after =>
      have hcalled : machine.called? execution = none := by simp only [called?, hasked]
      simp only [serve]
      split
      · rename_i hgrant
        exact .stops hobserve.time hcalled (.denied (Site.denied_of_grant hgrant))
      · exact .proceeds next _ hobserve.time hcalled hasked rfl
    | call function base next after =>
      have hcalled : machine.called? execution =
          (after.above base).toOption.map fun _ => function := by
        simp only [called?, hasked]
      simp only [serve]
      cases habove : after.above base with
      | error denial =>
        rw [habove] at hcalled
        split
        · rename_i hgrant
          exact .stops hobserve hcalled (.denied (Site.denied_of_grant hgrant))
        · rename_i hgrant
          cases denial <;> cases hgrant
      | ok args =>
        rw [habove] at hcalled
        simp only [Site.grant, startCall]
        split
        · rename_i hresolve
          exact .misses hobserve hcalled hresolve
        · rename_i hresolve
          exact .calls args ⟨_, _, next, base, after⟩ hobserve hcalled hasked hresolve rfl
    | finish value =>
      have hcalled : machine.called? execution = none := by simp only [called?, hasked]
      simp only [serve]
      cases hcallers : execution.callers with
      | nil => exact .returns hobserve hcalled hasked hcallers
      | cons caller callers =>
        simp only [finish, resume]
        split
        -- All calls are left here, the one that returns among them.
        · rename_i hgrant
          have hstops := Moves.stops hobserve hcalled (.denied (Site.denied_of_grant hgrant))
          rw [hcallers] at hstops
          exact hstops
        · exact .resumes _ hobserve hcalled hasked hcallers

theorem start_eq_enter {id : Nat} {function : Function} {callee : Callee}
    (hfunction : machine.program.function? id = some function)
    (hruns : callee.Runs machine.program id function) (args : Array Int64) (callers : List Caller)
    (state : State) :
    ∃ tier next, machine.start callee args callers state = enter tier args callers next ∧
      tier.function = function ∧ State.Reports [] [] state next := by
  cases hruns with
  | interpreted =>
    exact ⟨.interpreted function, state, by simp only [start, hfunction], rfl, .refl state⟩
  | @compiled code htranslate =>
    refine ⟨.compiled code, _, rfl, (ThreadedCode.aligned_zero htranslate).1, ?_⟩
    split
    · exact (State.Reports.refl state).also _ rfl rfl
    · exact .refl state

end Machine
end TieredVM
