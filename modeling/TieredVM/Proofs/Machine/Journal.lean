import TieredVM.Proofs.Machine.Host
set_option autoImplicit false

namespace TieredVM

@[simp] theorem Event.traceOf_map_trace (records : List TraceRecord) :
    traceOf (records.map .trace) = records := by
  induction records with
  | nil => rfl
  | cons record records ih => exact congrArg (record :: ·) ih

/-- The journal has grown: the given text was written out, and no instruction was recorded. The time
was told as often as is given. -/
structure State.Writes (text : List UInt8) (times : Nat) (before after : State) : Prop where
  journal : ∃ events, after.journal.toList = before.journal.toList ++ events ∧
    Event.outputOf events = text ∧ Event.traceOf events = []
  told : after.timesTold = before.timesTold + times

namespace State

section

variable {text text' : List UInt8} {times times' : Nat} {first second third : State}

theorem Writes.of_journal (h : second.journal = first.journal)
    (htold : second.timesTold = first.timesTold + times) : Writes [] times first second :=
  ⟨⟨[], by simp [h], rfl, rfl⟩, htold⟩

theorem Writes.refl (state : State) : Writes [] 0 state state := .of_journal rfl rfl

theorem Writes.trans (h : Writes text times first second)
    (h' : Writes text' times' second third) :
    Writes (text ++ text') (times + times') first third := by
  obtain ⟨⟨events, hjournal, rfl, htrace⟩, htold⟩ := h
  obtain ⟨⟨events', hjournal', rfl, htrace'⟩, htold'⟩ := h'
  refine ⟨⟨events ++ events', ?_, by simp, by simp [htrace, htrace']⟩, ?_⟩
  · rw [hjournal', hjournal, List.append_assoc]
  · rw [htold', htold, Nat.add_assoc]

theorem Writes.followed (h : Writes text times first second) (h' : Writes [] 0 second third) :
    Writes text times first third := by
  simpa using h.trans h'

theorem Writes.record {state : State} {event : Event} (houtput : Event.outputOf [event] = text)
    (htrace : Event.traceOf [event] = []) : Writes text 0 state (state.record event) :=
  ⟨⟨[event], by simp [State.record], houtput, htrace⟩, rfl⟩

end

@[simp] theorem journal_leave (state : State) : state.leave.journal = state.journal := by
  unfold leave
  split
  · rfl
  · split <;> rfl

@[simp] theorem journal_unwind (state : State) (count : Nat) :
    (state.unwind count).journal = state.journal := by
  induction count generalizing state with
  | zero => rfl
  | succ count ih => rw [unwind, ih, journal_leave]

@[simp] theorem timesTold_leave (state : State) : state.leave.timesTold = state.timesTold := by
  unfold leave
  split
  · rfl
  · split <;> rfl

@[simp] theorem timesTold_unwind (state : State) (count : Nat) :
    (state.unwind count).timesTold = state.timesTold := by
  induction count generalizing state with
  | zero => rfl
  | succ count ih => rw [unwind, ih, timesTold_leave]

theorem Writes.leave (state : State) : state.Writes [] 0 state.leave :=
  .of_journal state.journal_leave state.timesTold_leave

end State

namespace Machine

variable {machine : Machine}

theorem writes_diagnose (text : String) (state : State) :
    state.Writes [] 0 (machine.diagnose text state) := by
  unfold diagnose
  split
  · exact .record rfl rfl
  · exact .refl state

theorem writes_promote (function : Function) (slot : TierSlot) (state : State) :
    state.Writes [] 0 (machine.promote function slot state).2 := by
  have hasked : ∀ state : State, state.Writes [] 0 (if machine.compiler.audited then
      state.record (.compile function.name) else state) := by
    intro state
    split
    · exact .record rfl rfl
    · exact .refl state
  unfold promote
  cases machine.compiler.compile machine.program function <;>
    exact ((writes_diagnose _ state).followed (hasked _)).followed (writes_diagnose _ _)

theorem writes_count (id : Nat) (slot : TierSlot) (state : State) :
    state.Writes [] 0 (machine.count id slot state).2 := by
  unfold count
  cases machine.config.tiering with
  | interpretOnly => exact .refl state
  | tiered threshold =>
    simp only
    split
    · split
      · cases machine.program.function? id with
        | none => exact .refl state
        | some function => exact writes_promote function _ state
      · exact .refl state
    · exact .refl state

theorem writes_resolve {id : Nat} {state next : State} {callee : Callee}
    (h : machine.resolve id state = some (callee, next)) : state.Writes [] 0 next := by
  unfold resolve at h
  cases hslot : state.tiers[id]? with
  | none => simp [hslot] at h
  | some slot =>
    simp only [hslot, Option.some.injEq, Prod.mk.injEq] at h
    obtain ⟨-, rfl⟩ := h
    exact (writes_count id slot state).followed (.of_journal rfl rfl)

theorem writes_stop (reason : Stop) (calls : Nat) (state : State) :
    state.Writes [] 0 (stop reason calls state).state :=
  .of_journal (state.journal_unwind calls) (state.timesTold_unwind calls)

theorem writes_start (callee : Callee) (args : Array Int64) (callers : List Caller)
    (state : State) : state.Writes [] 0 (machine.start callee args callers state).state := by
  cases callee with
  | interpreted id =>
    simp only [start]
    cases machine.program.function? id with
    | none => exact writes_stop _ _ state
    | some function => exact .of_journal rfl rfl
  | compiled code =>
    have hentered : ∀ state : State,
        state.Writes [] 0 (enter (.compiled code) args callers state).state :=
      fun _ => .of_journal rfl rfl
    simp only [start]
    split
    · refine .followed ?_ (hentered _)
      exact .record rfl rfl
    · exact hentered state

theorem writes_startCall (id : Nat) (args : Array Int64) (callers : List Caller) (state : State) :
    state.Writes [] 0 (machine.startCall id args callers state).state := by
  simp only [startCall]
  cases hresolve : machine.resolve id state with
  | none => exact writes_stop _ _ state
  | some found =>
    exact (writes_resolve hresolve).followed (writes_start found.1 args callers found.2)

theorem writes_startMain (machine : Machine) (state : State) :
    state.Writes [] 0 (machine.startMain state).state := by
  simp only [startMain, startWithArgs]
  split
  · exact .refl state
  · split
    · exact .refl state
    · split
      · exact writes_startCall _ _ _ state
      · exact .refl state

theorem writes_finish (value : Int64) (callers : List Caller) (state : State) :
    state.Writes [] 0 (finish value callers state).state := by
  cases callers with
  | nil => exact .leave state
  | cons caller callers =>
    simp only [finish, resume]
    split
    · exact (State.Writes.leave state).followed (writes_stop _ _ _)
    · exact .leave state

def printed (machine : Machine) (execution : Execution) : List UInt8 :=
  match machine.asked execution with
  | .ok (.print text _ _) =>
    match execution.state.host.refusals execution.state.textsGiven with
    | some _ => []
    | none => text
  | _ => []

theorem printed_of_not_print {execution : Execution}
    (h : ∀ text next frame, machine.asked execution ≠ .ok (.print text next frame)) :
    machine.printed execution = [] := by
  unfold printed
  split
  · rename_i hasked
    exact absurd hasked (h _ _ _)
  · rfl

theorem observe_journal (machine : Machine) (execution : Execution) :
    (machine.observe execution.state execution.active.tier execution.active.place
        execution.active.frame.depth).journal.toList =
      execution.state.journal.toList ++ (machine.observed execution).map .trace := by
  unfold observe observed
  split
  · cases execution.active.tier.opcode? execution.active.place with
    | none => simp
    | some opcode => exact Array.toList_push
  · simp

theorem asksTime_of_not_time {execution : Execution}
    (h : ∀ next frame, machine.asked execution ≠ .ok (.time next frame)) :
    machine.asksTime execution = false := by
  unfold asksTime
  split
  · rename_i hasked
    exact absurd hasked (h _ _)
  · rfl

/-- After its own record, a step writes out what its instruction prints, and has the time told if
its instruction asks for it. -/
theorem step_writes (machine : Machine) (execution : Execution) :
    (machine.observe execution.state execution.active.tier execution.active.place
      execution.active.frame.depth).Writes (machine.printed execution)
      (machine.asksTime execution).toNat (machine.step execution).state := by
  obtain ⟨hhost, -, hgiven⟩ := machine.observe_host execution.active.tier execution.active.place
    execution.active.frame.depth execution.state
  cases hasked : machine.asked execution with
  | error reason =>
    rw [step_of_error hasked, printed_of_not_print (by simp [hasked]),
      asksTime_of_not_time (by simp [hasked])]
    exact writes_stop _ _ _
  | ok request =>
    rw [step_of_ok hasked]
    generalize machine.observe execution.state execution.active.tier execution.active.place
      execution.active.frame.depth = state at hhost hgiven
    cases request with
    | print text next frame =>
      have hasks : state.Writes [] 0 state.given := .of_journal rfl rfl
      rw [asksTime_of_not_time (by simp [hasked])]
      simp only [printed, hasked, ← hhost, ← hgiven, serve, State.print]
      cases state.host.refusals state.textsGiven with
      | some message => exact hasks.followed (writes_stop _ _ _)
      | none =>
        have hrecord : state.given.Writes text 0 (state.given.record (.output text)) :=
          .record (List.flatMap_singleton _ _) rfl
        exact hasks.trans hrecord
    | time next frame =>
      have htold : state.Writes [] 1 state.time.2 := .of_journal rfl rfl
      rw [printed_of_not_print (by simp [hasked])]
      simp only [asksTime, hasked, serve]
      split
      · exact htold.followed (writes_stop _ _ _)
      · exact htold
    | proceed next frame =>
      rw [printed_of_not_print (by simp [hasked]), asksTime_of_not_time (by simp [hasked])]
      exact .refl state
    | call function base next frame =>
      rw [printed_of_not_print (by simp [hasked]), asksTime_of_not_time (by simp [hasked])]
      simp only [serve]
      split
      · exact writes_stop _ _ _
      · exact writes_startCall _ _ _ state
    | finish value =>
      rw [printed_of_not_print (by simp [hasked]), asksTime_of_not_time (by simp [hasked])]
      exact writes_finish value _ state

theorem step_journal (machine : Machine) (execution : Execution) :
    ∃ events, (machine.step execution).state.journal.toList = execution.state.journal.toList ++
        ((machine.observed execution).map .trace ++ events) ∧
      Event.outputOf events = machine.printed execution ∧ Event.traceOf events = [] := by
  obtain ⟨events, hjournal, houtput, htrace⟩ := (machine.step_writes execution).journal
  rw [observe_journal, List.append_assoc] at hjournal
  exact ⟨events, hjournal, houtput, htrace⟩

theorem step_timesTold (machine : Machine) (execution : Execution) :
    (machine.step execution).state.timesTold =
      execution.state.timesTold + (machine.asksTime execution).toNat := by
  obtain ⟨-, htold, -⟩ := machine.observe_host execution.active.tier execution.active.place
    execution.active.frame.depth execution.state
  rw [(machine.step_writes execution).told, htold]

theorem advance_journal (machine : Machine) (count : Nat) (progress : Progress) :
    ∃ events, (machine.advance count progress).state.journal.toList =
      progress.state.journal.toList ++ events := by
  induction count generalizing progress with
  | zero => exact ⟨[], by simp⟩
  | succ count ih =>
    cases progress with
    | ended outcome state => exact ⟨[], by simp⟩
    | running execution =>
      obtain ⟨events, hjournal, -⟩ := machine.step_journal execution
      obtain ⟨later, hlater⟩ := ih (machine.step execution)
      exact ⟨_, by rw [advance, hlater, hjournal, List.append_assoc, Progress.state]⟩

end Machine
end TieredVM
