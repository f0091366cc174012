import TieredVM.Proofs.Session.Commands
/-!
The chain of active calls and the counts of frames, over all that a machine goes through. Main
statement: at any time, also inside calls, there is one link for each frame that is open, and the
counts account for these and for all frames that were left.
-/
set_option autoImplicit false

namespace TieredVM

def Function.link (function : Function) : FrameLink where
  function := function.id
  onHeap := Frame.inlineSlots < function.frameSlots

/-- The given functions are active, the innermost first, and so many frames were entered so far. -/
structure State.Accounts (program : Program) (active : List Function) (entered : Nat)
    (state : State) : Prop where
  listed : ∀ function ∈ active, function ∈ program.functions
  chain : state.chain = active.map Function.link
  heap : state.stats.heapReleases + state.chain.countP (·.onHeap) = state.stats.heapAllocations
  frames : state.stats.inlineFrames + state.stats.heapAllocations = entered

namespace State.Accounts

variable {program : Program} {active : List Function} {function : Function} {entered : Nat}
  {state next : State}

theorem initial (program : Program) : (State.initial program).Accounts program [] 0 where
  listed function hfunction := by cases hfunction
  chain := rfl
  heap := rfl
  frames := rfl

theorem keep (h : state.Accounts program active entered) (hchain : next.chain = state.chain)
    (hstats : next.stats = state.stats) : next.Accounts program active entered where
  listed := h.listed
  chain := hchain.trans h.chain
  heap := by rw [hchain, hstats, h.heap]
  frames := by rw [hstats, h.frames]

theorem enter (h : state.Accounts program active entered) (hfunction : function ∈ program.functions)
    (args : Array Int64) :
    (state.enter function args).2.Accounts program (function :: active) (entered + 1) where
  listed other hother := by
    rcases List.mem_cons.1 hother with rfl | hother
    · exact hfunction
    · exact h.listed other hother
  chain := congrArg (function.link :: ·) h.chain
  heap := by
    have hheap := h.heap
    simp only [State.enter, List.countP_cons]
    split
    · simp only
      omega
    · exact hheap
  frames := by
    have hframes := h.frames
    simp only [State.enter]
    split
    · simp only
      omega
    · simp only
      omega

theorem leave (h : state.Accounts program (function :: active) entered) :
    state.leave.Accounts program active entered := by
  have hchain : state.chain = function.link :: active.map Function.link := h.chain
  have hheap := h.heap
  have hframes := h.frames
  have hlisted (other : Function) (hother : other ∈ active) :=
    h.listed other (List.mem_cons_of_mem _ hother)
  rw [hchain, List.countP_cons] at hheap
  unfold State.leave
  rw [hchain]
  simp only
  split
  · rename_i honHeap
    rw [if_pos honHeap] at hheap
    refine ⟨hlisted, rfl, ?_, hframes⟩
    simp only
    omega
  · rename_i hnot
    rw [if_neg hnot] at hheap
    exact ⟨hlisted, rfl, hheap, hframes⟩

theorem unwind {calls : List Function} (h : state.Accounts program (calls ++ active) entered) :
    (state.unwind calls.length).Accounts program active entered := by
  induction calls generalizing state with
  | nil => exact h
  | cons function calls ih => exact ih h.leave

end State.Accounts

namespace Machine

variable {machine : Machine} {frames : List Function} {entered : Nat} {state : State}

theorem step_accounts {resolved : List Nat} {execution : Execution}
    (hcounts : execution.state.Counts machine resolved)
    (h : execution.state.Accounts machine.program
      ((Situation.busy execution).calls ++ frames) entered) :
    (machine.step execution).state.Accounts machine.program
      ((machine.step execution).situation.calls ++ frames)
      (entered + ((machine.step execution).situation.calls.length -
        (Situation.busy execution).calls.length)) := by
  have hlength : (Situation.busy execution).calls.length = execution.callers.length + 1 := by
    simp [Situation.calls]
  have hmoves := machine.step_moves execution
  generalize machine.step execution = progress at hmoves
  cases hmoves with
  | proceeds place frame hreports =>
    have hstate := h.keep hreports.chain hreports.stats
    simpa [Progress.state, Progress.situation, Situation.calls] using hstate
  | stops hreports | misses hreports =>
    have hstate := (h.keep hreports.chain hreports.stats).unwind
    rw [hlength] at hstate
    simpa [stop, Progress.state, Progress.situation, Situation.calls] using hstate
  | calls args caller hreports _ _ hresolve htier =>
    obtain ⟨tier, final, hstart, hlisted, -, hkeeps⟩ :=
      (hcounts.reports hreports).opens hresolve args (caller :: execution.callers)
    have hstate := h.keep (hkeeps.chain.trans hreports.chain) (hkeeps.stats.trans hreports.stats)
    have henter := hstate.enter (Array.mem_of_getElem? hlisted) args
    rw [hstart]
    simpa [enter, Progress.state, Progress.situation, Situation.calls, Caller.functions, htier]
      using henter
  | resumes frame hreports _ _ hcallers | returns hreports _ _ hcallers =>
    have hstate := (h.keep hreports.chain hreports.stats).leave
    simpa [Progress.state, Progress.situation, Situation.calls, Caller.functions, hcallers]
      using hstate

theorem Visits.accounts {ledger : Ledger} {situation : Situation}
    (h : machine.Visits ledger situation) :
    situation.state.Accounts machine.program (situation.calls ++ ledger.frames) ledger.entered := by
  induction h with
  | initial => exact .initial machine.program
  | started hvisits hstarts ih =>
    rcases hstarts.opens hvisits.counts with
      ⟨-, outcome, rfl⟩ | ⟨tier, args, next, rfl, hlisted, -, hkeeps⟩
    · exact ih
    · exact (ih.keep hkeeps.chain hkeeps.stats).enter hlisted args
  | stepped hvisits ih =>
    rw [Progress.state_situation]
    exact step_accounts hvisits.counts ih
  | resolved hvisits hresolve ih =>
    obtain ⟨function, -, -, -, hkeeps⟩ := hvisits.counts.of_resolve hresolve
    exact ih.keep hkeeps.chain hkeeps.stats
  | entered args _ hfunction ih => exact ih.enter (Array.mem_of_getElem? hfunction) args
  | left _ ih => exact ih.leave
  | hosted _ _ _ _ ih => exact ih.keep rfl rfl
  | wrote text _ ih => exact ih.keep rfl rfl
  | noted text _ ih => exact ih.keep rfl rfl

theorem Revisits.accounts {ledger : Ledger} (h : machine.Revisits ledger state) :
    ∃ entered, state.Accounts machine.program ledger.frames entered := by
  obtain ⟨later, hframes, hvisits⟩ := h
  exact ⟨later.entered, hframes ▸ hvisits.accounts⟩

/-- At any time, the chain lists the active calls with their frames, and the counts account for all
frames. A command that ends, however it ends, leaves the chain as it was, and as many frames on the
heap. -/
theorem visits_accounts (hdense : machine.program.Dense) {ledger : Ledger} {situation : Situation}
    (h : machine.Visits ledger situation) :
    situation.state.callChain = (situation.calls ++ ledger.frames).reverse.map Function.link ∧
    (∀ link ∈ situation.state.callChain, ∃ function,
      machine.program.function? link.function = some function ∧
        (link.onHeap = true ↔ 8 < function.maxStackDepth + function.localCount)) ∧
    situation.state.stats.heapReleases + situation.state.callChain.countP (·.onHeap) =
      situation.state.stats.heapAllocations ∧
    situation.state.stats.inlineFrames + situation.state.stats.heapAllocations = ledger.entered ∧
    ∀ (session next : Session) (fuel : Nat) (command : Command) (reply : Reply),
      situation = .idle session.state →
      session.perform machine fuel command = some (reply, next) →
      next.state.callChain = session.state.callChain ∧
        next.state.stats.heapAllocations - next.state.stats.heapReleases =
          session.state.stats.heapAllocations - session.state.stats.heapReleases := by
  have haccounts := h.accounts
  have hchain : situation.state.callChain =
      (situation.calls ++ ledger.frames).reverse.map Function.link := by
    rw [State.callChain, haccounts.chain, List.map_reverse]
  refine ⟨hchain, fun link hlink => ?_, ?_, haccounts.frames,
    fun session next fuel command reply hsituation hperform => ?_⟩
  · rw [hchain, List.mem_map] at hlink
    obtain ⟨function, hactive, rfl⟩ := hlink
    obtain ⟨id, hid⟩ :=
      Array.mem_iff_getElem?.1 (haccounts.listed function (List.mem_reverse.1 hactive))
    have hfunction : machine.program.function? function.id = some function :=
      (hdense id function hid).symm ▸ hid
    exact ⟨function, hfunction, decide_eq_true_iff⟩
  · rw [State.callChain, List.countP_reverse]
    exact haccounts.heap
  -- The same frames are held open after the command, and they alone determine chain and heap.
  · subst hsituation
    obtain ⟨entered, hnext⟩ := (Session.revisits_perform command h hperform).accounts
    have hsame : next.state.chain = session.state.chain := hnext.chain.trans haccounts.chain.symm
    have hheap := haccounts.heap
    have hheap' := hnext.heap
    refine ⟨congrArg List.reverse hsame, ?_⟩
    rw [hsame] at hheap'
    simp only [Situation.state] at hheap
    omega

def spilling : Machine where
  program := {
    name := "spilling"
    functions := #[
      { name := "main", id := 0, argCount := 1, localCount := 8, maxStackDepth := 1
        code := (List.flatMap Instruction.encode [.pushArg 0, .call 1 1, .ret]).toArray },
      { name := "share", id := 1, argCount := 1, localCount := 0, maxStackDepth := 2
        code := (List.flatMap Instruction.encode [.pushConstant 100, .pushArg 0, .binary .div,
          .ret]).toArray }]
    strings := #[] }
  config := { tiering := .tiered 1 }

theorem spilling_dense : spilling.program.Dense := by
  intro id function hfunction
  match id with
  | 0 | 1 => cases hfunction; rfl
  | id + 2 => cases hfunction

theorem visits_accounts_spilling : ∃ (ledger : Ledger) (session next : Session),
    spilling.Visits ledger (.idle session.state) ∧
      session.perform spilling 20 (.call 0 #[0]) =
        some (.call (.error (.fault (.divisionByZero "share" 18))), next) ∧
      next.state.callChain = [⟨0, true⟩] ∧
      next.state.stats.heapAllocations - next.state.stats.heapReleases = 1 := by
  have hfunction : spilling.program.function? 0 = some spilling.program.functions[0] := rfl
  have hvisits := Visits.initial.entered #[] hfunction
  generalize hstate :
    (State.enter (.initial spilling.program) spilling.program.functions[0] #[]).2 = state at hvisits
  have hchain : state.callChain = [⟨0, true⟩] := by
    rw [← hstate]
    decide +kernel
  have hheap : state.stats.heapAllocations - state.stats.heapReleases = 1 := by
    rw [← hstate]
    decide +kernel
  have hfault : (spilling.call 20 0 #[0] state).map (·.1) =
      some (.error (.fault (.divisionByZero "share" 18))) := by
    rw [← hstate]
    decide +kernel
  obtain ⟨⟨outcome, final⟩, hcall, rfl⟩ := Option.map_eq_some_iff.1 hfault
  have hperform : (Session.start state).perform spilling 20 (.call 0 #[0]) =
      some (.call (.error (.fault (.divisionByZero "share" 18))), { state := final }) :=
    congrArg (Session.after (.start state) .call) hcall
  obtain ⟨hsame, hsameHeap⟩ :=
    (visits_accounts spilling_dense hvisits).2.2.2.2 (.start state) _ 20 _ _ rfl hperform
  exact ⟨_, .start state, _, hvisits, hperform, hsame.trans hchain, hsameHeap.trans hheap⟩

end Machine
end TieredVM
