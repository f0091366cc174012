import TieredVM.Proofs.Machine.Yields
/-!
What a run takes from the host and from the events before. The time is asked for by `CURRENT_TIME`
alone, texts are given only by instructions that print, and the events are not looked at.
-/
set_option autoImplicit false

namespace TieredVM

namespace State

def withHost (host : Host) (state : State) : State :=
  { state with host }

/-- The state with another host, and with other events before its own. -/
def amid (past : Array Event) (host : Host) (state : State) : State :=
  { state with host, journal := past ++ state.journal }

variable (past : Array Event) (host : Host) (state : State)

@[simp] theorem withHost_self : state.withHost state.host = state := rfl

theorem amid_empty : state.amid #[] host = state.withHost host := by
  simp [amid, withHost]

@[simp] theorem record_amid (event : Event) :
    (state.amid past host).record event = (state.record event).amid past host := by
  simp [amid, record]

@[simp] theorem leave_amid : (state.amid past host).leave = state.leave.amid past host := by
  obtain ⟨tiers, chain, stats, _, _, _, journal⟩ := state
  cases chain with
  | nil => rfl
  | cons link chain =>
    simp only [leave, amid]
    split <;> rfl

@[simp] theorem unwind_amid (count : Nat) :
    (state.amid past host).unwind count = (state.unwind count).amid past host := by
  induction count generalizing state with
  | zero => rfl
  | succ count ih =>
    rw [unwind, unwind, leave_amid, ih]

end State

namespace Progress

def withHost (host : Host) : Progress → Progress
  | running execution => running { execution with state := execution.state.withHost host }
  | ended outcome state => ended outcome (state.withHost host)

def amid (past : Array Event) (host : Host) : Progress → Progress
  | running execution => running { execution with state := execution.state.amid past host }
  | ended outcome state => ended outcome (state.amid past host)

@[simp] theorem state_withHost (host : Host) (progress : Progress) :
    (progress.withHost host).state = progress.state.withHost host := by
  cases progress <;> rfl

theorem amid_empty (host : Host) (progress : Progress) :
    progress.amid #[] host = progress.withHost host := by
  cases progress <;> simp only [amid, withHost, State.amid_empty]

end Progress

namespace Machine

variable {machine : Machine} {past : Array Event} {host : Host}

theorem promote_amid (function : Function) (slot : TierSlot) (state : State) :
    machine.promote function slot (state.amid past host) =
      ((machine.promote function slot state).1,
        (machine.promote function slot state).2.amid past host) := by
  have hdiagnose : ∀ text (state : State), machine.diagnose text (state.amid past host) =
      (machine.diagnose text state).amid past host := by
    intro text state
    unfold diagnose
    split
    · exact state.record_amid past host _
    · rfl
  have hask : ∀ state : State, (if machine.compiler.audited then
      (state.amid past host).record (.compile function.name)
      else state.amid past host) =
      (if machine.compiler.audited then state.record (.compile function.name)
        else state).amid past host := by
    intro state
    split
    · exact state.record_amid past host _
    · rfl
  unfold promote
  cases machine.compiler.compile machine.program function <;> simp only [hdiagnose, hask]

theorem count_amid (id : Nat) (slot : TierSlot) (state : State) :
    machine.count id slot (state.amid past host) =
      ((machine.count id slot state).1, (machine.count id slot state).2.amid past host) := by
  unfold count
  cases machine.config.tiering with
  | interpretOnly => rfl
  | tiered threshold =>
    simp only
    split
    · split
      · cases machine.program.function? id with
        | none => rfl
        | some function => exact promote_amid function _ state
      · rfl
    · rfl

theorem resolve_amid (id : Nat) (state : State) :
    machine.resolve id (state.amid past host) =
      (machine.resolve id state).map fun found => (found.1, found.2.amid past host) := by
  unfold resolve
  have htiers : (state.amid past host).tiers = state.tiers := rfl
  rw [htiers]
  cases state.tiers[id]? with
  | none => rfl
  | some slot =>
    simp only [count_amid]
    rfl

theorem observe_amid (machine : Machine) (past : Array Event) (host : Host) (tier : Tier)
    (place depth : Nat) (state : State) :
    machine.observe (state.amid past host) tier place depth =
      (machine.observe state tier place depth).amid past host := by
  unfold observe
  split
  · cases tier.opcode? place with
    | none => rfl
    | some opcode => exact state.record_amid past host _
  · rfl

theorem stop_amid (reason : Stop) (calls : Nat) (state : State) :
    stop reason calls (state.amid past host) = (stop reason calls state).amid past host := by
  simp [stop, Progress.amid]

theorem enter_amid (tier : Tier) (args : Array Int64) (callers : List Caller) (state : State) :
    enter tier args callers (state.amid past host) =
      (enter tier args callers state).amid past host := rfl

theorem start_amid (callee : Callee) (args : Array Int64) (callers : List Caller)
    (state : State) :
    machine.start callee args callers (state.amid past host) =
      (machine.start callee args callers state).amid past host := by
  cases callee with
  | interpreted id =>
    simp only [start]
    cases machine.program.function? id with
    | none => exact stop_amid _ _ _
    | some function => rfl
  | compiled code =>
    have hchain : (state.amid past host).callChain = state.callChain := rfl
    simp only [start, hchain, State.record_amid]
    split <;> exact enter_amid _ _ _ _

theorem startCall_amid (id : Nat) (args : Array Int64) (callers : List Caller)
    (state : State) :
    machine.startCall id args callers (state.amid past host) =
      (machine.startCall id args callers state).amid past host := by
  simp only [startCall, resolve_amid]
  cases machine.resolve id state with
  | none => exact stop_amid _ _ _
  | some found => exact start_amid found.1 args callers found.2

theorem startWithArgs_amid (id : Nat) (args : Array Int64) (state : State) :
    machine.startWithArgs id args (state.amid past host) =
      (machine.startWithArgs id args state).amid past host := by
  simp only [startWithArgs]
  cases machine.program.function? id with
  | none => rfl
  | some function =>
    simp only
    split
    · exact startCall_amid id args [] state
    · rfl

theorem startMain_amid (state : State) :
    machine.startMain (state.amid past host) = (machine.startMain state).amid past host := by
  simp only [startMain]
  cases machine.program.findFunction? "main" with
  | none => rfl
  | some function => exact startWithArgs_amid function.id #[] state

theorem finish_amid (value : Int64) (callers : List Caller) (state : State) :
    finish value callers (state.amid past host) =
      (finish value callers state).amid past host := by
  cases callers with
  | nil => simp [finish, Progress.amid]
  | cons caller callers =>
    simp only [finish, resume, State.leave_amid]
    split
    · exact stop_amid _ _ _
    · rfl

theorem serve_amid (tier : Tier) (place : Nat) (callers : List Caller) (state : State)
    (request : Request)
    (htime : ∀ next frame, request = .time next frame →
      host.times state.timesTold = state.host.times state.timesTold)
    (hprint : ∀ text next frame, request = .print text next frame →
      host.refusals state.textsGiven = state.host.refusals state.textsGiven) :
    machine.serve tier place callers (state.amid past host) request =
      (machine.serve tier place callers state request).amid past host := by
  cases request with
  | proceed next frame => rfl
  | print text next frame =>
    have hsame : (state.amid past host).print text =
        ((state.print text).1, (state.print text).2.amid past host) := by
      have hgiven : (state.amid past host).given = state.given.amid past host := rfl
      have hrefusal : (state.amid past host).host.refusals (state.amid past host).textsGiven =
          state.host.refusals state.textsGiven := hprint text next frame rfl
      simp only [State.print, hrefusal, hgiven, State.record_amid]
      cases state.host.refusals state.textsGiven <;> rfl
    simp only [serve, hsame]
    rcases state.print text with ⟨_ | message, after⟩
    · rfl
    · exact stop_amid _ _ _
  | time next frame =>
    have hsame : (state.amid past host).time = (state.time.1, state.time.2.amid past host) :=
      Prod.ext (htime next frame rfl) rfl
    simp only [serve, hsame]
    split
    · exact stop_amid _ _ _
    · rfl
  | call function base next frame =>
    simp only [serve]
    split
    · exact stop_amid _ _ _
    · exact startCall_amid _ _ _ _
  | finish value => exact finish_amid value callers state

theorem step_amid (past : Array Event) (host : Host) {execution : Execution}
    (htime : ∀ next frame, machine.asked execution = .ok (.time next frame) →
      host.times execution.state.timesTold = execution.state.host.times execution.state.timesTold)
    (hprint : ∀ text next frame, machine.asked execution = .ok (.print text next frame) →
      host.refusals execution.state.textsGiven =
        execution.state.host.refusals execution.state.textsGiven) :
    machine.step { execution with state := execution.state.amid past host } =
      (machine.step execution).amid past host := by
  obtain ⟨hhost, htold, hgiven⟩ := machine.observe_host execution.active.tier
    execution.active.place execution.active.frame.depth execution.state
  cases hasked : machine.asked execution with
  | error reason =>
    rw [step_of_error hasked, step_of_error (by exact hasked), observe_amid]
    exact stop_amid _ _ _
  | ok request =>
    rw [step_of_ok hasked, step_of_ok (by exact hasked), observe_amid]
    refine serve_amid _ _ _ _ _ (fun next frame hrequest => ?_)
      (fun text next frame hrequest => ?_)
    · rw [hhost, htold]
      exact htime next frame (hrequest ▸ hasked)
    · rw [hhost, hgiven]
      exact hprint text next frame (hrequest ▸ hasked)

theorem startCall_withHost (host : Host) (id : Nat) (args : Array Int64) (callers : List Caller)
    (state : State) :
    machine.startCall id args callers (state.withHost host) =
      (machine.startCall id args callers state).withHost host := by
  rw [← State.amid_empty, startCall_amid, Progress.amid_empty]

theorem startWithArgs_withHost (host : Host) (id : Nat) (args : Array Int64) (state : State) :
    machine.startWithArgs id args (state.withHost host) =
      (machine.startWithArgs id args state).withHost host := by
  rw [← State.amid_empty, startWithArgs_amid, Progress.amid_empty]

theorem step_withHost (host : Host) {execution : Execution}
    (htime : ∀ next frame, machine.asked execution = .ok (.time next frame) →
      host.times execution.state.timesTold = execution.state.host.times execution.state.timesTold)
    (hprint : ∀ text next frame, machine.asked execution = .ok (.print text next frame) →
      host.refusals execution.state.textsGiven =
        execution.state.host.refusals execution.state.textsGiven) :
    machine.step { execution with state := execution.state.withHost host } =
      (machine.step execution).withHost host := by
  rw [← State.amid_empty, step_amid #[] host htime hprint, Progress.amid_empty]

theorem step_host (machine : Machine) (execution : Execution) :
    (machine.step execution).state.host = execution.state.host := by
  have hstep : machine.step execution = _ :=
    step_withHost execution.state.host (fun _ _ _ => rfl) fun _ _ _ _ => rfl
  have hstate := congrArg Progress.state hstep
  rw [Progress.state_withHost] at hstate
  exact (congrArg State.host hstate :)

theorem refusal_of_step {execution : Execution} {message : String} {state : State}
    (hasked : machine.asked execution ≠ .error (.fault (.output message)))
    (h : machine.step execution = .ended (.error (.fault (.output message))) state) :
    execution.state.host.refusals execution.state.textsGiven = some message := by
  have hmoves := machine.step_moves execution
  generalize machine.step execution = progress at hmoves h
  cases hmoves with
  | proceeds | resumes | returns | misses => cases h
  | @calls _ _ _ _ _ _ callee =>
    cases callee with
    | interpreted id =>
      simp only [start] at h
      split at h <;> cases h
    | compiled code => cases h
  | stops _ _ hstops =>
    cases h
    cases hstops with
    | failed hreason => exact absurd hreason hasked
    | denied hdenied => cases hdenied
    | refused _ hrefusal => exact hrefusal

end Machine
end TieredVM
