import Mathlib.Data.List.Chain
import TieredVM.Proofs.Machine.Journal
import TieredVM.Proofs.Machine.Yields
import TieredVM.Proofs.Session.Safety
set_option autoImplicit false

namespace TieredVM

namespace TraceRecord

/-- The first record is one of a call, and the second one belongs to the function that it calls. -/
def Calls (program : Program) (record next : TraceRecord) : Prop :=
  ∃ caller called callee args, program.function? record.function = some caller ∧
    Instruction.decode caller.code record.offset = .ok (.call callee args) ∧
    Word.toIndex? callee = some next.function ∧
    program.function? next.function = some called ∧ next.name = called.name

/-- What runs right after an instruction. -/
structure Leads (program : Program) (record next : TraceRecord) : Prop where
  call : record.opcode = .call →
    next.callDepth = record.callDepth + 1 ∧ next.depth = 0 ∧ record.Calls program next
  ret : record.opcode = .ret → record.callDepth = next.callDepth + 1
  other : record.opcode ≠ .call → record.opcode ≠ .ret → next.callDepth = record.callDepth

def count (opcode : Opcode) (records : List TraceRecord) : Nat :=
  records.countP (·.opcode = opcode)

section

variable {program : Program} {record next : TraceRecord} {opcode : Opcode}
  {records : List TraceRecord}

theorem Leads.of_call (hop : record.opcode = .call)
    (hcallDepth : next.callDepth = record.callDepth + 1) (hdepth : next.depth = 0)
    (hcalls : record.Calls program next) : record.Leads program next where
  call _ := ⟨hcallDepth, hdepth, hcalls⟩
  ret hret := by simp [hop] at hret
  other hnot := absurd hop hnot

theorem Leads.of_ret (hop : record.opcode = .ret)
    (hcallDepth : record.callDepth = next.callDepth + 1) : record.Leads program next where
  call hcall := by simp [hop] at hcall
  ret _ := hcallDepth
  other _ hnot := absurd hop hnot

theorem Leads.of_transfers_eq_false (hop : record.opcode.transfers = false)
    (hcallDepth : next.callDepth = record.callDepth) : record.Leads program next where
  call hcall := absurd hcall (Opcode.transfers_eq_false_iff.1 hop).1
  ret hret := absurd hret (Opcode.transfers_eq_false_iff.1 hop).2.1
  other _ _ := hcallDepth

theorem count_concat_self (h : record.opcode = opcode) :
    count opcode (records ++ [record]) = count opcode records + 1 := by
  simp [count, h]

theorem count_concat_of_ne (h : record.opcode ≠ opcode) :
    count opcode (records ++ [record]) = count opcode records := by
  simp [count, h]

end

/-- The records of a run that starts with no calls active. -/
structure Bracketed (program : Program) (records : List TraceRecord) : Prop where
  first : ∀ record, records.head? = some record → record.callDepth = 1
  chain : records.IsChain (Leads program)

theorem Bracketed.concat {program : Program} {records : List TraceRecord}
    {last next : TraceRecord} (h : Bracketed program (records ++ [last]))
    (hleads : last.Leads program next) : Bracketed program (records ++ [last] ++ [next]) where
  first record hrecord := h.first record (by cases records <;> exact hrecord)
  chain := by
    rw [List.append_assoc, List.singleton_append, List.isChain_split]
    exact ⟨h.chain, List.isChain_pair.2 hleads⟩

end TraceRecord

/-- A run whose last instruction is given, after those before it, can end like this. -/
inductive Outcome.Explained (before : List TraceRecord) (last : TraceRecord) : Outcome → Prop
  | returned (value : Int64) : last.opcode = .ret → last.callDepth = 1 →
    TraceRecord.count .ret (before ++ [last]) = TraceRecord.count .call (before ++ [last]) + 1 →
    Explained before last (.ok value)
  | halted : last.opcode = .halt → (∀ record ∈ before, record.opcode ≠ .halt) →
    Explained before last (.error .halt)
  | divisionByZero : last.opcode = .div ∨ last.opcode = .mod →
    Explained before last (.error (.fault (.divisionByZero last.name last.offset)))
  | output (message : String) : last.opcode = .printString ∨ last.opcode = .printInt64 →
    Explained before last (.error (.fault (.output message)))

theorem Outcome.Explained.of_divisionByZero {before : List TraceRecord} {last : TraceRecord}
    {name : String} {offset : Nat}
    (h : Outcome.Explained before last (.error (.fault (.divisionByZero name offset)))) :
    last.name = name ∧ last.offset = offset := by
  cases h
  exact ⟨rfl, rfl⟩

def Execution.Alone (execution : Execution) : Prop :=
  execution.state.chain.length = execution.callers.length + 1

inductive Progress.Told (program : Program) (records : List TraceRecord) : Progress → Prop
  | running {execution : Execution} :
    (∀ opcode, TraceRecord.Bracketed program (records ++ [execution.record opcode])) →
    (∀ record ∈ records, record.opcode ≠ .halt) →
    TraceRecord.count .call records =
      TraceRecord.count .ret records + execution.callers.length →
    Told program records (.running execution)
  | ended {outcome : Outcome} {state : State} : TraceRecord.Bracketed program records →
    (outcome.Orderly → ∃ before last, records = before ++ [last] ∧
      outcome.Explained before last) →
    Told program records (.ended outcome state)

theorem Progress.Told.next {program : Program} {records : List TraceRecord} {record : TraceRecord}
    {execution : Execution} (hbracketed : TraceRecord.Bracketed program (records ++ [record]))
    (hhalts : ∀ record ∈ records, record.opcode ≠ .halt) (hhalt : record.opcode ≠ .halt)
    (hleads : ∀ opcode, record.Leads program (execution.record opcode))
    (hcount : TraceRecord.count .call (records ++ [record]) =
      TraceRecord.count .ret (records ++ [record]) + execution.callers.length) :
    (Progress.running execution).Told program (records ++ [record]) := by
  refine .running (fun opcode => hbracketed.concat (hleads opcode)) ?_ hcount
  intro other hother
  rcases List.mem_append.1 hother with hother | hother
  · exact hhalts other hother
  · exact List.mem_singleton.1 hother ▸ hhalt

namespace Machine

variable {machine : Machine} {execution : Execution} {resolved : List Nat}

theorem trace_step (machine : Machine) (execution : Execution) :
    Event.traceOf (machine.step execution).state.journal.toList =
      Event.traceOf execution.state.journal.toList ++ machine.observed execution := by
  obtain ⟨events, hjournal, -, hsilent⟩ := machine.step_journal execution
  rw [hjournal, Event.traceOf_append, Event.traceOf_append, Event.traceOf_map_trace, hsilent,
    List.append_nil]

theorem observed_eq {instr : Instruction} (htrace : machine.config.trace = true)
    (hfaces : machine.Faces execution instr) :
    machine.observed execution = [execution.record instr.opcode] := by
  simp only [observed, htrace, if_true, hfaces.opcode, Option.map_some, Option.toList_some]

theorem explained_of_stops {instr : Instruction} {reason : Stop} {before : List TraceRecord}
    (hfaces : machine.Faces execution instr) (hstops : machine.Stops execution reason)
    (horderly : Outcome.Orderly (.error reason))
    (hbefore : ∀ record ∈ before, record.opcode ≠ .halt) :
    Outcome.Explained before (execution.record instr.opcode) (.error reason) := by
  have hyields := hfaces.yields
  cases hstops with
  | failed hasked =>
    rw [hasked] at hyields
    cases hyields with
    | halts hop => exact .halted hop hbefore
    | divides hop => exact .divisionByZero hop
    | fails hnot => exact absurd horderly hnot
  | refused hasked =>
    rw [hasked] at hyields
    cases hyields with
    | prints _ _ _ hop => exact .output _ hop
  | denied hdenied => exact absurd horderly hdenied.not_orderly

theorem told_step {records : List TraceRecord} {instr : Instruction}
    (h : (Progress.running execution).Told machine.program records)
    (hdense : machine.program.Dense) (hcounts : execution.state.Counts machine resolved)
    (hfaces : machine.Faces execution instr) (halone : execution.Alone)
    (hnext : ∀ next, machine.step execution = .running next → next.Alone) :
    (machine.step execution).Told machine.program
      (records ++ [execution.record instr.opcode]) := by
  obtain ⟨hbracketed, hhalts, hcount⟩ := h
  have hyields := hfaces.yields
  have hmoves := machine.step_moves execution
  generalize machine.step execution = progress at hmoves hnext
  cases hmoves with
  | proceeds place frame hreports _ hasked hgoes =>
    rw [hasked] at hyields
    have htransfers := hyields.transfers_eq_false hgoes
    obtain ⟨hcall, hret, hhalt⟩ := Opcode.transfers_eq_false_iff.1 htransfers
    refine .next (hbracketed _) hhalts hhalt (fun opcode => ?_) ?_
    · exact .of_transfers_eq_false htransfers (congrArg List.length hreports.chain)
    · rw [TraceRecord.count_concat_of_ne hcall, TraceRecord.count_concat_of_ne hret]
      exact hcount
  | stops hreports _ hstops =>
    refine .ended (hbracketed _) fun horderly => ⟨records, _, rfl, ?_⟩
    exact explained_of_stops hfaces hstops horderly hhalts
  -- Verified code calls nothing that is not there, so this is not one of the ends to explain.
  | misses => exact .ended (hbracketed _) fun horderly => by cases horderly
  | @calls _ _ id _ _ _ _ args caller hreports _ hasked hresolve =>
    obtain ⟨tier, final, hstart, hlisted, -, hkeeps⟩ :=
      (hcounts.reports hreports).opens hresolve args (caller :: execution.callers)
    rw [hasked] at hyields
    cases hyields with
    | @calls callee given _ _ _ _ hinstr hcallee =>
      subst hinstr
      obtain rfl : tier.function.id = id := hdense id tier.function hlisted
      have hop : (execution.record (Instruction.call callee given).opcode).opcode = .call := rfl
      rw [hstart]
      refine .next (hbracketed _) hhalts (by simp [hop]) (fun opcode => .of_call hop ?_ rfl ?_) ?_
      · exact congrArg (·.length + 1) (hkeeps.chain.trans hreports.chain)
      · exact ⟨_, tier.function, callee, given, hfaces.listed, hfaces.decoded, hcallee, hlisted,
          rfl⟩
      · rw [TraceRecord.count_concat_self hop, TraceRecord.count_concat_of_ne (by simp [hop]),
          hcount]
        rfl
  | resumes frame hreports _ hasked hcallers =>
    rw [hasked] at hyields
    cases hyields with
    | finishes _ hop =>
      have hlater := hnext _ rfl
      have hret : (execution.record instr.opcode).opcode = .ret := hop
      rw [Execution.Alone, hcallers] at halone
      rw [hcallers, List.length_cons] at hcount
      refine .next (hbracketed _) hhalts (by simp [hret]) (fun opcode => .of_ret hret ?_) ?_
      · exact halone.trans (congrArg (· + 1) hlater.symm)
      · rw [TraceRecord.count_concat_self hret, TraceRecord.count_concat_of_ne (by simp [hret])]
        simp only
        omega
  | returns hreports _ hasked hcallers =>
    rw [hasked] at hyields
    cases hyields with
    | finishes _ hop =>
      have hret : (execution.record instr.opcode).opcode = .ret := hop
      rw [Execution.Alone, hcallers] at halone
      rw [hcallers, List.length_nil, Nat.add_zero] at hcount
      refine .ended (hbracketed _) fun horderly => ⟨records, _, rfl, .returned _ hret halone ?_⟩
      rw [TraceRecord.count_concat_self hret, TraceRecord.count_concat_of_ne (by simp [hret]),
        hcount]

theorem Visits.length_chain {ledger : Ledger} (h : machine.Visits ledger (.busy execution)) :
    execution.state.chain.length = execution.callers.length + ledger.frames.length + 1 := by
  simpa [Situation.calls, Situation.state] using congrArg List.length h.accounts.chain

theorem Visits.alone {ledger : Ledger} (h : machine.Visits ledger (.busy execution))
    (hframes : ledger.frames = []) : execution.Alone := by
  rw [Execution.Alone, h.length_chain, hframes]
  rfl

section Runs

variable {state final : State} {id : Nat} {function : Function} {args : Array Int64}

theorem Reached.visits_advance {frames : List FrameLink} (h : machine.Reached frames state)
    (id : Nat) (args : Array Int64) (count : Nat) :
    ∃ ledger : Ledger, ledger.frames.map Function.link = frames ∧ machine.Visits ledger
      (machine.advance count (machine.startCall id args [] state)).situation := by
  obtain ⟨ledger, hframes, hvisits⟩ := h.visits
  refine ⟨_, ?_, (hvisits.started (.call id args)).advance count⟩
  rw [frames_keep]
  exact hframes.symm

theorem Reached.exists_typed {frames : List FrameLink} (h : machine.Reached frames state)
    (haccepted : machine.program.Accepted)
    (hfunction : machine.program.function? id = some function)
    (hargs : args.size = function.argCount) (count : Nat) :
    ∃ plain, (machine.advance count (machine.startCall id args [] state)).Follows machine.program
      state plain ∧ plain.Typed machine.program := by
  have hfollows := follows_startCall .nil id args (State.echoes_bare h.tiers)
  obtain ⟨plainCount, hcount⟩ := exists_plain_advance hfollows count
  exact ⟨_, hcount, typed_advance haccepted
    (typed_startCall (by simp) haccepted (.of_bare state) hfunction hargs) plainCount⟩

theorem Reached.exists_faces {frames : List FrameLink} (h : machine.Reached frames state)
    (haccepted : machine.program.Accepted)
    (hfunction : machine.program.function? id = some function)
    (hargs : args.size = function.argCount) {count : Nat}
    (hcount : machine.advance count (machine.startCall id args [] state) = .running execution) :
    ∃ instr, machine.Faces execution instr := by
  obtain ⟨plain, hfollows, htyped⟩ := h.exists_typed haccepted hfunction hargs count
  rw [hcount] at hfollows
  exact Machine.exists_faces hfollows htyped

theorem told_startCall (args : Array Int64) (hreached : machine.Reached [] state)
    (hfunction : machine.program.function? id = some function) :
    Event.traceOf (machine.startCall id args [] state).state.journal.toList =
        Event.traceOf state.journal.toList ∧
      (machine.startCall id args [] state).Told machine.program [] := by
  obtain ⟨ledger, -, hvisits⟩ := hreached.visits
  have hcounts : state.Counts machine ledger.resolved := hvisits.counts
  obtain ⟨next, hresolve, -⟩ := hcounts.resolve hfunction
  obtain ⟨tier, final, hstart, -, -, hkeeps⟩ := hcounts.opens hresolve args []
  have hcall : machine.startCall id args [] state = enter tier args [] final := by
    simp only [startCall, hresolve, hstart]
  have hchain : final.chain = [] := hkeeps.chain.trans hreached.chain
  rw [hcall]
  refine ⟨hkeeps.trace, .running (fun opcode => ⟨fun record hrecord => ?_, .singleton _⟩) (by simp)
    rfl⟩
  cases hrecord
  exact congrArg (·.length + 1) hchain

theorem told_advance (haccepted : machine.program.Accepted) (hreached : machine.Reached [] state)
    (htrace : machine.config.trace = true)
    (hfunction : machine.program.function? id = some function)
    (hargs : args.size = function.argCount) (count : Nat) :
    ∃ records, Event.traceOf
        (machine.advance count (machine.startCall id args [] state)).state.journal.toList =
          Event.traceOf state.journal.toList ++ records ∧
      (machine.advance count (machine.startCall id args [] state)).Told machine.program
        records := by
  induction count with
  | zero =>
    obtain ⟨hsame, htold⟩ := told_startCall args hreached hfunction
    rw [advance_zero]
    exact ⟨[], by rw [hsame, List.append_nil], htold⟩
  | succ count ih =>
    obtain ⟨records, hrecords, htold⟩ := ih
    cases hadvance : machine.advance count (machine.startCall id args [] state) with
    | ended outcome final =>
      rw [hadvance] at hrecords htold
      rw [advance_succ_of_ended hadvance]
      exact ⟨records, hrecords, htold⟩
    | running execution =>
      rw [hadvance] at hrecords htold
      obtain ⟨instr, hfaces⟩ := hreached.exists_faces haccepted hfunction hargs hadvance
      -- No frames are held open, so the chain is as deep as the calls of the run, before and after.
      obtain ⟨ledger, hframes, hvisits⟩ := hreached.visits_advance id args count
      obtain ⟨later, hlater, hnext⟩ := hreached.visits_advance id args (count + 1)
      rw [hadvance] at hvisits
      rw [advance_succ_of_running hadvance] at hnext ⊢
      have hdense : machine.program.Dense := fun _ _ hlisted => (haccepted.checked hlisted).1
      refine ⟨records ++ [execution.record instr.opcode], ?_, ?_⟩
      · rw [trace_step, observed_eq htrace hfaces, ← List.append_assoc]
        exact congrArg (· ++ _) hrecords
      · refine told_step htold hdense hvisits.counts hfaces
          (hvisits.alone (List.map_eq_nil_iff.1 hframes)) fun next hstep => ?_
        rw [hstep] at hnext
        exact hnext.alone (List.map_eq_nil_iff.1 hlater)

/-- The trace of a run that ends, from no active calls, is bracketed and explains the end. -/
theorem runWithArgs_explained (haccepted : machine.program.Accepted)
    (hreached : machine.Reached [] state) (htrace : machine.config.trace = true)
    (hfunction : machine.program.function? id = some function)
    (hargs : args.size = function.argCount) {fuel : Nat} {outcome : Outcome}
    (hrun : machine.runWithArgs fuel id args state = some (outcome, final)) :
    ∃ before last, Event.traceOf (final.journal.toList.drop state.journal.size) =
        before ++ [last] ∧
      TraceRecord.Bracketed machine.program (before ++ [last]) ∧
      outcome.Explained before last := by
  have hstart : machine.startWithArgs id args state = machine.startCall id args [] state := by
    simp only [startWithArgs, hfunction, if_pos hargs]
  rw [runWithArgs, hstart, run_eq_some_iff] at hrun
  obtain ⟨records, hrecords, htold⟩ :=
    told_advance haccepted hreached htrace hfunction hargs fuel
  obtain ⟨plain, hfollows, htyped⟩ := hreached.exists_typed haccepted hfunction hargs fuel
  rw [hrun] at hrecords htold hfollows
  obtain ⟨echo, rfl, hechoes⟩ := hfollows.of_ended
  obtain ⟨events, hjournal, -⟩ := hechoes.journal
  have hevents : Event.traceOf events = records := by
    have hsame : Event.traceOf final.journal.toList = _ := hrecords
    rw [hjournal, Event.traceOf_append] at hsame
    exact List.append_cancel_left hsame
  rw [hjournal, ← Array.length_toList, List.drop_left, hevents]
  cases htold with
  | ended hbracketed hexplained =>
    obtain ⟨before, last, rfl, hlast⟩ := hexplained htyped.of_ended
    exact ⟨before, last, rfl, hbracketed, hlast⟩

theorem runWithArgs_explained_dividing : ∃ final before last,
    dividingCompiled.runWithArgs 20 0 #[0] (State.initial dividing) =
        some (.error (.fault (.divisionByZero "share" 19)), final) ∧
      Event.traceOf (final.journal.toList.drop 0) = before ++ [last] ∧
      TraceRecord.Bracketed dividing (before ++ [last]) ∧ last.name = "share" ∧
      last.offset = 19 := by
  obtain ⟨⟨outcome, final⟩, hrun, rfl⟩ := Option.map_eq_some_iff.1 run_dividing
  have haccepted : dividingCompiled.program.Accepted := dividing_accepted
  have hfunction : dividingCompiled.program.function? 0 = some dividing.functions[0] := rfl
  obtain ⟨before, last, htrace, hbracketed, hlast⟩ :=
    runWithArgs_explained haccepted .initial rfl hfunction rfl hrun
  exact ⟨final, before, last, hrun, htrace, hbracketed, hlast.of_divisionByZero⟩

end Runs

end Machine
end TieredVM
