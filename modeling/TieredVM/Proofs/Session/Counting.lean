import TieredVM.Proofs.Machine.Slots
import TieredVM.Proofs.Session.Visits
set_option autoImplicit false

namespace TieredVM

/-- The functions for which the compiler was asked after calls of the given ones: each that is due,
once. -/
structure Machine.Asks (machine : Machine) (resolved asked : List Nat) : Prop where
  nodup : asked.Nodup
  mem_iff : ∀ id, id ∈ asked ↔ (machine.program.function? id).isSome ∧
    machine.config.tiering.Due (resolved.count id)

/-- The slots and the requests to the compiler are those after calls of the given functions. -/
structure State.Counts (machine : Machine) (resolved : List Nat) (state : State) : Prop where
  size : state.tiers.size = machine.program.functions.size
  slots : ∀ id function, machine.program.function? id = some function →
    ∃ slot, state.tiers[id]? = some slot ∧ slot.Counts machine function (resolved.count id)
  requests : ∃ asked, machine.Asks resolved asked ∧
    Event.requestsOf state.journal.toList = machine.requests asked

theorem count_concat_self (ids : List Nat) (id : Nat) :
    (ids ++ [id]).count id = ids.count id + 1 := by
  simp

theorem count_concat_of_ne {ids : List Nat} {id other : Nat} (h : id ≠ other) :
    (ids ++ [id]).count other = ids.count other := by
  simp [h]

namespace Machine.Asks

variable {machine : Machine} {resolved asked : List Nat} {id : Nat}

theorem nil (machine : Machine) : machine.Asks [] [] :=
  ⟨List.nodup_nil, by simp [machine.config.tiering.not_due_zero]⟩

theorem unknown (h : machine.Asks resolved asked)
    (hfunction : machine.program.function? id = none) : machine.Asks (resolved ++ [id]) asked := by
  refine ⟨h.nodup, fun other => ?_⟩
  rw [h.mem_iff]
  refine and_congr_right fun hother => ?_
  rw [count_concat_of_ne]
  rintro rfl
  simp [hfunction] at hother

theorem concat {function : Function} (h : machine.Asks resolved asked)
    (hfunction : machine.program.function? id = some function) :
    machine.Asks (resolved ++ [id])
      (asked ++ if machine.config.tiering.Due (resolved.count id + 1) ∧
        ¬ machine.config.tiering.Due (resolved.count id) then [id] else []) where
  nodup := by
    split
    · rename_i hnew
      refine List.nodup_append.2 ⟨h.nodup, by simp, fun other hother found hfound heq => ?_⟩
      rw [List.mem_singleton.1 hfound] at heq
      exact hnew.2 ((h.mem_iff id).1 (heq ▸ hother)).2
    · rw [List.append_nil]
      exact h.nodup
  mem_iff other := by
    rw [List.mem_append, h.mem_iff]
    by_cases heq : id = other
    -- Whoever was due is due after one more call, and is not asked for again.
    · subst heq
      have hsucc : machine.config.tiering.Due (resolved.count id) →
          machine.config.tiering.Due (resolved.count id + 1) := TierPolicy.Due.succ
      rw [count_concat_self, hfunction]
      split <;> simp <;> tauto
    · rw [count_concat_of_ne heq]
      split <;> simp [Ne.symm heq]

end Machine.Asks

namespace State.Counts

variable {machine : Machine} {resolved : List Nat} {state next : State} {id : Nat}

theorem initial (machine : Machine) : (State.initial machine.program).Counts machine [] where
  size := by simp [State.initial]
  slots id function hfunction := by
    refine ⟨{}, ?_, TierSlot.counts_zero machine function⟩
    simp only [State.initial, Array.getElem?_map]
    exact congrArg (Option.map _) hfunction
  requests := ⟨[], .nil machine, by simp [State.initial, Event.requestsOf, Machine.requests]⟩

theorem tiers (h : state.Counts machine resolved) : machine.program.Tiers state.tiers where
  size := h.size
  entry id slot code hslot hcode := by
    have hlt : id < machine.program.functions.size :=
      h.size ▸ (Array.getElem?_eq_some_iff.1 hslot).1
    have hfunction : machine.program.function? id = some machine.program.functions[id] :=
      Array.getElem?_eq_getElem hlt
    obtain ⟨found, hfound, hcounts⟩ := h.slots id _ hfunction
    rw [hslot, Option.some.injEq] at hfound
    subst hfound
    exact ⟨_, hfunction, Compiler.translate_of_compile ((hcounts.compiled code).1 hcode).2⟩

theorem keep (h : state.Counts machine resolved) (htiers : next.tiers = state.tiers)
    (hjournal : Event.requestsOf next.journal.toList = Event.requestsOf state.journal.toList) :
    next.Counts machine resolved where
  size := htiers ▸ h.size
  slots := htiers ▸ h.slots
  requests := hjournal ▸ h.requests

theorem reports {records : List TraceRecord} (h : state.Counts machine resolved)
    (hreports : State.Reports [] records state next) : next.Counts machine resolved :=
  h.keep hreports.tiers (by rw [hreports.requests, List.append_nil])

theorem record (h : state.Counts machine resolved) {event : Event}
    (hevent : Event.requestsOf [event] = []) : (state.record event).Counts machine resolved := by
  have hrecord := State.Reports.record state event
  rw [hevent] at hrecord
  exact h.reports hrecord

theorem leave (h : state.Counts machine resolved) : state.leave.Counts machine resolved := by
  unfold State.leave
  split
  · exact h
  · split
    · exact h.keep rfl rfl
    · exact h.keep rfl rfl

theorem unwind (h : state.Counts machine resolved) (count : Nat) :
    (state.unwind count).Counts machine resolved := by
  induction count generalizing state with
  | zero => exact h
  | succ count ih => exact ih h.leave

theorem unknown (h : state.Counts machine resolved)
    (hfunction : machine.program.function? id = none) :
    state.Counts machine (resolved ++ [id]) := by
  obtain ⟨asked, hasked, hjournal⟩ := h.requests
  refine ⟨h.size, fun other function hother => ?_, asked, hasked.unknown hfunction, hjournal⟩
  rw [count_concat_of_ne]
  · exact h.slots other function hother
  · rintro rfl
    rw [hfunction] at hother
    cases hother

theorem resolve {function : Function} (h : state.Counts machine resolved)
    (hfunction : machine.program.function? id = some function) :
    ∃ next, machine.resolve id state =
        some (machine.chosen id function (resolved.count id + 1), next) ∧
      next.Counts machine (resolved ++ [id]) ∧ state.Keeps next := by
  obtain ⟨slot, hslot, hslots⟩ := h.slots id function hfunction
  obtain ⟨asked, hasked, hjournal⟩ := h.requests
  obtain ⟨found, next, hresolve, hfound, hreports⟩ := Machine.exists_resolve hslots hfunction hslot
  have hkeeps := hreports.keeps
  refine ⟨_, hresolve, ⟨?_, ?_, ?_⟩, hkeeps.chain, hkeeps.stats, hkeeps.trace⟩
  · simpa only [Array.size_setIfInBounds] using h.size
  · intro other sought hsought
    rw [Array.getElem?_setIfInBounds]
    split
    · rename_i heq
      subst heq
      have hlt := (Array.getElem?_eq_some_iff.1 hslot).1
      rw [hfunction, Option.some.injEq] at hsought
      rw [if_pos hlt, count_concat_self, ← hsought]
      exact ⟨found, rfl, hfound⟩
    · rename_i hne
      rw [count_concat_of_ne hne]
      exact h.slots other sought hsought
  · refine ⟨_, hasked.concat hfunction, ?_⟩
    rw [Machine.requests_append, ← hjournal]
    exact hreports.requests

theorem missed (h : state.Counts machine resolved) (hresolve : machine.resolve id state = none) :
    state.Counts machine (resolved ++ [id]) := by
  cases hfunction : machine.program.function? id with
  | none => exact h.unknown hfunction
  | some function =>
    obtain ⟨next, hnext, -⟩ := h.resolve hfunction
    rw [hnext] at hresolve
    cases hresolve

theorem of_resolve {callee : Callee} (h : state.Counts machine resolved)
    (hresolve : machine.resolve id state = some (callee, next)) :
    ∃ function, machine.program.function? id = some function ∧
      callee = machine.chosen id function (resolved.count id + 1) ∧
      next.Counts machine (resolved ++ [id]) ∧ state.Keeps next := by
  cases hfunction : machine.program.function? id with
  | none =>
    rw [Machine.resolve_eq_none h.size hfunction] at hresolve
    cases hresolve
  | some function =>
    obtain ⟨found, hfound, hcounts⟩ := h.resolve hfunction
    rw [hfound] at hresolve
    cases hresolve
    exact ⟨function, rfl, rfl, hcounts⟩

theorem opens {callee : Callee} (h : state.Counts machine resolved)
    (hresolve : machine.resolve id state = some (callee, next)) (args : Array Int64)
    (callers : List Caller) :
    ∃ tier final, machine.start callee args callers next = Machine.enter tier args callers final ∧
      machine.program.function? id = some tier.function ∧
      final.Counts machine (resolved ++ [id]) ∧ state.Keeps final := by
  obtain ⟨function, hfunction, rfl, hcounts, hkeeps⟩ := h.of_resolve hresolve
  obtain ⟨tier, final, hstart, rfl, hreports⟩ :=
    Machine.start_eq_enter hfunction (machine.chosen_runs id function _) args callers next
  exact ⟨tier, final, hstart, hfunction, hcounts.reports hreports, hkeeps.trans hreports.keeps⟩

end State.Counts

namespace Machine

variable {machine : Machine} {resolved : List Nat} {state : State}

theorem Starts.opens {ids : List Nat} {progress : Progress} (h : machine.Starts state ids progress)
    (hcounts : state.Counts machine resolved) :
    state.Counts machine (resolved ++ ids) ∧ (∃ outcome, progress = .ended outcome state) ∨
    ∃ tier args next, progress = enter tier args [] next ∧
      tier.function ∈ machine.program.functions ∧ next.Counts machine (resolved ++ ids) ∧
      state.Keeps next := by
  cases h with
  | call id args =>
    unfold startCall
    cases hfunction : machine.program.function? id with
    | none =>
      simp only [resolve_eq_none hcounts.size hfunction]
      exact .inl ⟨hcounts.unknown hfunction, _, rfl⟩
    | some function =>
      obtain ⟨next, hresolve, -⟩ := hcounts.resolve hfunction
      obtain ⟨tier, final, hstart, hlisted, hfinal⟩ := hcounts.opens hresolve args []
      simp only [hresolve]
      exact .inr ⟨tier, args, final, hstart, Array.mem_of_getElem? hlisted, hfinal⟩
  | callee args hfunction hruns =>
    rw [List.append_nil]
    obtain ⟨tier, next, hstart, rfl, hreports⟩ := start_eq_enter hfunction hruns args [] state
    exact .inr ⟨tier, args, next, hstart, Array.mem_of_getElem? hfunction,
      hcounts.reports hreports, hreports.keeps⟩
  | @code id function code args hfunction htranslate =>
    rw [List.append_nil]
    have hcode : (Tier.compiled code).function = function :=
      (ThreadedCode.aligned_zero htranslate).1
    exact .inr ⟨.compiled code, args, state, rfl, hcode ▸ Array.mem_of_getElem? hfunction, hcounts,
      (State.Reports.refl state).keeps⟩

theorem step_counts {execution : Execution} (h : execution.state.Counts machine resolved) :
    (machine.step execution).state.Counts machine
      (resolved ++ (machine.called? execution).toList) := by
  have hmoves := machine.step_moves execution
  generalize machine.step execution = progress at hmoves
  cases hmoves with
  | proceeds place frame hreports hcalled =>
    rw [hcalled, Option.toList_none, List.append_nil]
    exact h.reports hreports
  | stops hreports hcalled =>
    rw [hcalled, Option.toList_none, List.append_nil]
    exact (h.reports hreports).unwind _
  | misses hreports hcalled hresolve =>
    rw [hcalled, Option.toList_some]
    exact ((h.reports hreports).missed hresolve).unwind _
  | calls args caller hreports hcalled _ hresolve =>
    obtain ⟨tier, final, hstart, -, hcounts, -⟩ := (h.reports hreports).opens hresolve args _
    rw [hcalled, Option.toList_some, hstart]
    exact hcounts.keep rfl rfl
  | resumes frame hreports hcalled | returns hreports hcalled =>
    rw [hcalled, Option.toList_none, List.append_nil]
    exact (h.reports hreports).leave

theorem Visits.counts {ledger : Ledger} {situation : Situation}
    (h : machine.Visits ledger situation) :
    situation.state.Counts machine ledger.resolved := by
  induction h with
  | initial => exact .initial machine
  | started _ hstarts ih =>
    rcases hstarts.opens ih with ⟨hcounts, outcome, rfl⟩ | ⟨tier, args, next, rfl, -, hcounts, -⟩
    · exact hcounts
    · exact hcounts.keep rfl rfl
  | stepped _ ih =>
    rw [Progress.state_situation]
    exact step_counts ih
  | resolved _ hresolve ih =>
    obtain ⟨function, -, -, hcounts, -⟩ := ih.of_resolve hresolve
    exact hcounts
  | entered args _ _ ih => exact ih.keep rfl rfl
  | left _ ih => exact ih.leave
  | hosted _ _ _ _ ih => exact ih.keep rfl rfl
  | wrote text _ ih => exact ih.record rfl
  | noted text _ ih => exact ih.record rfl

/-- At any time, the slot of a function is the one that belongs to the number of its calls, and so
is what its next call runs. The compiler has been asked once for every function that is due. -/
theorem visits_slots {ledger : Ledger} {situation : Situation}
    (h : machine.Visits ledger situation) :
    (∀ id function, machine.program.function? id = some function →
      ∃ slot, situation.state.tiers[id]? = some slot ∧
        slot.Counts machine function (ledger.resolved.count id) ∧
        (machine.config.tiering.Due (ledger.resolved.count id) →
          (slot.entry.isSome ↔ slot.failed = false)) ∧
        (¬ machine.config.tiering.Due (ledger.resolved.count id) →
          slot.entry = none ∧ slot.failed = false) ∧
        (machine.config.tiering = .interpretOnly → slot = {}) ∧
        ∀ state : State, state.tiers = situation.state.tiers → ∃ next, machine.resolve id state =
          some (machine.chosen id function (ledger.resolved.count id + 1), next)) ∧
    (∀ id, machine.program.function? id = none →
      ∀ state : State, state.tiers = situation.state.tiers → machine.resolve id state = none ∧
        ∀ args, machine.startCall id args [] state =
          .ended (.error (.fault (.unknownFunction id))) state) ∧
    ∃ asked, machine.Asks ledger.resolved asked ∧
      Event.requestsOf situation.state.journal.toList = machine.requests asked := by
  have hcounts := h.counts
  refine ⟨fun id function hfunction => ?_, fun id hfunction state htiers => ?_, hcounts.requests⟩
  · obtain ⟨slot, hslot, hslots⟩ := hcounts.slots id function hfunction
    refine ⟨slot, hslot, hslots, hslots.decided, hslots.undecided, hslots.eq_empty,
      fun state htiers => ?_⟩
    obtain ⟨found, next, hresolve, -⟩ := exists_resolve hslots hfunction (htiers ▸ hslot)
    exact ⟨_, hresolve⟩
  · have hresolve : machine.resolve id state = none :=
      resolve_eq_none (htiers ▸ hcounts.size) hfunction
    exact ⟨hresolve, fun args => by simp only [startCall, hresolve]; rfl⟩

def countdown : Machine where
  program := {
    name := "countdown"
    functions := #[
      { name := "main", id := 0, argCount := 0, localCount := 0, maxStackDepth := 1
        code := (List.flatMap Instruction.encode [.pushConstant 3, .call 1 1, .ret]).toArray },
      { name := "down", id := 1, argCount := 1, localCount := 0, maxStackDepth := 2
        code := (List.flatMap Instruction.encode [.pushArg 0, .pushConstant 0, .branch .equal 64,
          .pushArg 0, .pushConstant 1, .binary .sub, .call 1 1, .ret, .pushArg 0, .ret]).toArray }]
    strings := #[] }
  config := { tiering := .tiered 2 }
  compiler := { audited := true }

theorem visits_slots_countdown : ∃ ledger situation slot code next,
    countdown.Visits ledger situation ∧ ledger.resolved = [0, 1, 1] ∧
      situation.state.tiers[1]? = some slot ∧ slot.invoked = 2 ∧ slot.entry = some code ∧
      Event.requestsOf situation.state.journal.toList = ["down"] ∧
      countdown.resolve 1 situation.state = some (.compiled code, next) := by
  have hstart : countdown.Starts (.initial countdown.program) [0] _ := .call 0 #[]
  have hvisits := (Visits.initial.started hstart).advance 9
  generalize hledger : countdown.keep 9 _ _ = ledger at hvisits
  generalize hsituation : (countdown.advance 9 _).situation = situation at hvisits
  have hresolved : ledger.resolved = [0, 1, 1] := by
    rw [← hledger]
    decide +kernel
  have hjournal : Event.requestsOf situation.state.journal.toList = ["down"] := by
    rw [← hsituation]
    decide +kernel
  have hok : (countdown.compiler.compile countdown.program
      countdown.program.functions[1]).toOption.isSome := by decide +kernel
  obtain ⟨code, hcode⟩ := Option.isSome_iff_exists.1 hok
  have hcompile := toOption_eq_some_iff.1 hcode
  obtain ⟨slot, hslot, hcounts, -, -, -, hnext⟩ := (visits_slots hvisits).1 1 _ rfl
  rw [hresolved] at hcounts hnext
  obtain ⟨next, hnext⟩ := hnext _ rfl
  refine ⟨ledger, situation, slot, code, next, hvisits, hresolved, hslot, hcounts.invoked,
    (hcounts.compiled code).2 ⟨⟨by decide, by decide⟩, hcompile⟩, hjournal, hnext.trans ?_⟩
  rw [chosen, if_pos ⟨by decide, by decide⟩, hcompile]

end Machine
end TieredVM
