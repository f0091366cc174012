import TieredVM.Proofs.Session.Brackets
set_option autoImplicit false

namespace TieredVM

def Opcode.Prints (op : Opcode) : Prop := op = printString ∨ op = printInt64

/-- The instruction asks the host for something that another host might answer otherwise. -/
def TraceRecord.Consults (host other : Host) (record : TraceRecord) : Prop :=
  record.opcode = .currentTime ∧ other.times ≠ host.times ∨
    record.opcode.Prints ∧ other.refusals ≠ host.refusals

theorem TraceRecord.consults_recording_iff {record : TraceRecord} {clock clock' : Int64}
    {closed closed' : Bool} :
    record.Consults (.recording clock closed) (.recording clock' closed') ↔
      record.opcode = .currentTime ∧ clock' ≠ clock ∨ record.opcode.Prints ∧ closed' ≠ closed := by
  have htimes : (Host.recording clock' closed').times = (Host.recording clock closed).times ↔
      clock' = clock :=
    ⟨(congrFun · 0), fun h => h ▸ rfl⟩
  have hrefusals :
      (Host.recording clock' closed').refusals = (Host.recording clock closed).refusals ↔
        closed' = closed := by
    refine ⟨fun h => ?_, fun h => h ▸ rfl⟩
    have hnext := congrFun h 0
    cases closed <;> cases closed' <;> first | rfl | cases hnext
  simp only [Consults, ne_eq, htimes, hrefusals]

/-- The host takes no text, for the same reason each time. -/
def Host.Refuses (host : Host) (message : String) : Prop :=
  ∀ n, host.refusals n = some message

theorem Host.refuses_recording (clock : Int64) : (recording clock true).Refuses closedMessage :=
  fun _ => rfl

/-- The host and another one cannot be told apart by these events. -/
structure Event.Unaffected (host other : Host) (events : List Event) : Prop where
  records : ∀ record ∈ traceOf events, ¬ record.Consults host other
  output : other.refusals ≠ host.refusals → outputOf events = []

section

variable {host other : Host}

theorem Event.Unaffected.of_silent {events : List Event} (houtput : outputOf events = [])
    (htrace : traceOf events = []) : Unaffected host other events :=
  ⟨by simp [htrace], fun _ => houtput⟩

theorem Event.Unaffected.append {first second : List Event}
    (h : Unaffected host other first) (h' : Unaffected host other second) :
    Unaffected host other (first ++ second) where
  records record hrecord := by
    rw [traceOf_append, List.mem_append] at hrecord
    exact hrecord.elim (h.records record) (h'.records record)
  output hdiffer := by rw [outputOf_append, h.output hdiffer, h'.output hdiffer, List.append_nil]

theorem Instruction.perform_of_prints {program : Program} {site : Site} {next : Nat}
    {goto : Int64 → Option Nat} {frame : Frame} {request : Request} {instr : Instruction}
    (hprints : instr.opcode.Prints)
    (h : instr.perform program site next goto frame = .ok request) :
    ∃ text after, request = .print text next after := by
  cases instr with
  | printString id =>
    simp only [perform] at h
    cases htext : (Word.toIndex? id).bind program.string? with
    | none => simp [htext] at h
    | some text =>
      simp only [htext, Except.ok.injEq] at h
      exact ⟨text, frame, h.symm⟩
  | printInt64 =>
    obtain ⟨popped, -, hrequest⟩ := bind_eq_ok_iff.1 h
    cases hrequest
    exact ⟨_, _, rfl⟩
  | binary op => cases op <;> rcases hprints with hop | hop <;> cases hop
  | branch condition => cases condition <;> rcases hprints with hop | hop <;> cases hop
  | _ => rcases hprints with hop | hop <;> cases hop

end

namespace Machine

variable {machine : Machine} {state : State} {execution : Execution} {instr : Instruction}
  {host : Host}

theorem Faces.asks_print (h : machine.Faces execution instr) (hprints : instr.opcode.Prints)
    {request : Request} (hasked : machine.asked execution = .ok request) :
    ∃ text next frame, request = .print text next frame := by
  have hperform : (Tier.interpreted execution.active.tier.function).run .switch machine.program
      (execution.active.tier.offset execution.active.place) execution.active.frame = _ :=
    interpret_eq_perform ⟨_, _⟩ h.decoded
  have hserved := h.agrees.run machine.config.dispatch .switch execution.active.frame
  change Served _ (machine.asked execution) _ at hserved
  rw [hasked, hperform] at hserved
  generalize hresult : instr.perform _ _ _ _ _ = result at hserved
  cases hserved with
  | request hmatches =>
    obtain ⟨text, frame, rfl⟩ := Instruction.perform_of_prints hprints hresult
    cases hmatches
    exact ⟨_, _, _, rfl⟩

theorem Faces.withState (h : machine.Faces execution instr) (state : State) :
    machine.Faces { execution with state } instr :=
  ⟨h.listed, h.decoded, h.opcode, h.item, h.agrees, h.yields⟩

theorem Faces.step_withHost (h : machine.Faces execution instr)
    (htrace : machine.config.trace = true)
    (hhost : execution.state.host = state.host)
    (hconsults : ¬ (execution.record instr.opcode).Consults state.host host) :
    machine.step { execution with state := execution.state.withHost host } =
        (machine.step execution).withHost host ∧
      ∃ events, (machine.step execution).state.journal.toList =
          execution.state.journal.toList ++ events ∧
        Event.Unaffected state.host host events := by
  have hyields := h.yields
  obtain ⟨htimes, hrefusals⟩ := not_or.1 hconsults
  refine ⟨Machine.step_withHost host (fun next frame hasked => ?_)
    (fun text next frame hasked => ?_), ?_⟩
  · rw [hasked] at hyields
    cases hyields with
    | times _ _ hop =>
      have hsame : host.times = state.host.times := not_not.1 fun hdiffer => htimes ⟨hop, hdiffer⟩
      rw [hsame, hhost]
  · rw [hasked] at hyields
    cases hyields with
    | prints _ _ _ hop =>
      have hsame : host.refusals = state.host.refusals :=
        not_not.1 fun hdiffer => hrefusals ⟨hop, hdiffer⟩
      rw [hsame, hhost]
  · obtain ⟨events, hjournal, houtput, hsilent⟩ := machine.step_journal execution
    rw [observed_eq htrace h] at hjournal
    refine ⟨_, hjournal, .append ⟨fun record hrecord => ?_, fun _ => rfl⟩
      ⟨by simp [hsilent], fun hdiffer => ?_⟩⟩
    · obtain rfl : record = execution.record instr.opcode := by
        simpa [Event.traceOf] using hrecord
      exact hconsults
    · rw [houtput]
      refine printed_of_not_print fun text next frame hasked => ?_
      rw [hasked] at hyields
      cases hyields with
      | prints _ _ _ hop => exact hrefusals ⟨hop, hdiffer⟩

theorem Faces.step_refused (h : machine.Faces execution instr)
    (htrace : machine.config.trace = true) (hprints : instr.opcode.Prints)
    {message : String} (hrefuses : execution.state.host.Refuses message)
    (horderly : ∀ outcome final, machine.step execution = .ended outcome final → outcome.Orderly) :
    ∃ final, machine.step execution = .ended (.error (.fault (.output message))) final ∧
      final.journal.toList =
        execution.state.journal.toList ++ [.trace (execution.record instr.opcode)] := by
  have hjournal := machine.observe_journal execution
  rw [observed_eq htrace h] at hjournal
  cases hasked : machine.asked execution with
  | error reason =>
    have hyields := h.yields
    have hreason := horderly _ _ (step_of_error hasked)
    rw [hasked] at hyields
    -- An instruction that prints does not end a run in an orderly way by itself.
    cases hyields with
    | halts hop => rcases hprints with hprints | hprints <;> cases hop.symm.trans hprints
    | divides hop =>
      rcases hop with hop | hop <;> rcases hprints with hprints | hprints <;>
        cases hop.symm.trans hprints
    | fails hnot => exact absurd hreason hnot
  | ok request =>
    obtain ⟨text, next, frame, rfl⟩ := h.asks_print hprints hasked
    obtain ⟨hhost, -, hgiven⟩ := machine.observe_host execution.active.tier execution.active.place
      execution.active.frame.depth execution.state
    have hstep : machine.step execution = stop (.fault (.output message))
        (execution.callers.length + 1) (machine.observe execution.state execution.active.tier
          execution.active.place execution.active.frame.depth).given := by
      rw [step_of_ok hasked]
      simp only [serve, State.print, hhost, hgiven, hrefuses _]
    exact ⟨_, hstep, (congrArg Array.toList (State.journal_unwind _ _)).trans hjournal⟩

theorem advance_host (machine : Machine) (count : Nat) (progress : Progress) :
    (machine.advance count progress).state.host = progress.state.host := by
  induction count generalizing progress with
  | zero => simp
  | succ count ih =>
    cases progress with
    | ended outcome state => simp
    | running execution =>
      exact (ih (machine.step execution)).trans (machine.step_host execution)

theorem startCall_host (machine : Machine) (id : Nat) (args : Array Int64) (state : State) :
    (machine.startCall id args [] state).state.host = state.host := by
  have hstart : machine.startCall id args [] (state.withHost state.host) = _ :=
    startCall_withHost state.host id args [] state
  have hstate := congrArg Progress.state hstart
  rw [State.withHost_self, Progress.state_withHost] at hstate
  exact (congrArg State.host hstate :)

theorem Faces.exists_journal (h : machine.Faces execution instr)
    (htrace : machine.config.trace = true) {start : Progress} {first fuel : Nat} {outcome : Outcome}
    {final : State} (hrunning : machine.advance first start = .running execution)
    (hended : machine.advance fuel start = .ended outcome final) :
    ∃ rest, final.journal.toList =
      execution.state.journal.toList ++ .trace (execution.record instr.opcode) :: rest := by
  obtain ⟨count, hcount⟩ := exists_ended_of_running hrunning hended
  obtain ⟨later, hlater⟩ := machine.advance_journal count (machine.step execution)
  obtain ⟨events, hstep, -⟩ := machine.step_journal execution
  rw [hcount, hstep, observed_eq htrace h, List.append_assoc] at hlater
  exact ⟨events ++ later, hlater⟩

section Runs

variable {state : State} {frames : List FrameLink} {id : Nat} {function : Function}
  {args : Array Int64} {count fuel : Nat} {outcome : Outcome} {final : State}

theorem Reached.refused (hreached : machine.Reached frames state)
    (haccepted : machine.program.Accepted)
    (hfunction : machine.program.function? id = some function)
    (hargs : args.size = function.argCount) (htrace : machine.config.trace = true)
    {message : String} (hrefuses : state.host.Refuses message)
    (hrunning : machine.advance count (machine.startCall id args [] state) = .running execution)
    (hfaces : machine.Faces execution instr) (hprints : instr.opcode.Prints)
    (hended : machine.advance fuel (machine.startCall id args [] state) = .ended outcome final) :
    outcome = .error (.fault (.output message)) ∧ final.journal.toList =
      execution.state.journal.toList ++ [.trace (execution.record instr.opcode)] := by
  have hhost := machine.advance_host count (machine.startCall id args [] state)
  rw [hrunning, machine.startCall_host id args state] at hhost
  have horderly : ∀ found after, machine.step execution = .ended found after → found.Orderly := by
    intro found after h
    obtain ⟨plain, hfollows, htyped⟩ := hreached.exists_typed haccepted hfunction hargs (count + 1)
    rw [advance_succ_of_running hrunning, h] at hfollows
    obtain ⟨echo, rfl, -⟩ := hfollows.of_ended
    exact htyped.of_ended
  obtain ⟨last, hstep, hjournal⟩ :=
    hfaces.step_refused htrace hprints (hhost.symm ▸ hrefuses) horderly
  obtain ⟨later, hlater⟩ := exists_ended_of_running hrunning hended
  rw [hstep, advance_ended] at hlater
  cases hlater
  exact ⟨rfl, hjournal⟩

/-- After a number of steps the runs with both hosts are alike, and nothing in the first of them
depended on the host. -/
structure InStep (machine : Machine) (host : Host) (id : Nat) (args : Array Int64)
    (state : State) (count : Nat) : Prop where
  alike : machine.advance count (machine.startCall id args [] (state.withHost host)) =
    (machine.advance count (machine.startCall id args [] state)).withHost host
  journal : ∃ events, (machine.advance count
      (machine.startCall id args [] state)).state.journal.toList = state.journal.toList ++ events ∧
    Event.Unaffected state.host host events

/-- The runs with both hosts have come, in step, to an instruction whose outcome depends on the
host. -/
structure Parts (machine : Machine) (host : Host) (id : Nat) (args : Array Int64)
    (state : State) (count : Nat) (execution : Execution) (instr : Instruction) : Prop where
  inStep : machine.InStep host id args state count
  running : machine.advance count (machine.startCall id args [] state) = .running execution
  faces : machine.Faces execution instr
  consults : (execution.record instr.opcode).Consults state.host host

theorem inStep_zero (machine : Machine) (host : Host) (id : Nat)
    (args : Array Int64) (state : State) : machine.InStep host id args state 0 := by
  obtain ⟨⟨events, hjournal, houtput, htrace⟩, -⟩ := machine.writes_startCall id args [] state
  refine ⟨?_, events, ?_, .of_silent houtput htrace⟩
  · rw [advance_zero, advance_zero, startCall_withHost]
  · rwa [advance_zero]

theorem InStep.of_ended (h : machine.InStep host id args state count)
    (hended : machine.advance count (machine.startCall id args [] state) = .ended outcome final) :
    machine.InStep host id args state (count + 1) := by
  have halike := h.alike
  rw [hended] at halike
  refine ⟨?_, ?_⟩
  · rw [advance_succ_of_ended hended]
    exact advance_succ_of_ended halike
  · rw [advance_succ_of_ended hended, ← hended]
    exact h.journal

theorem InStep.of_running (h : machine.InStep host id args state count)
    (htrace : machine.config.trace = true)
    (hrunning : machine.advance count (machine.startCall id args [] state) = .running execution)
    (hfaces : machine.Faces execution instr)
    (hconsults : ¬ (execution.record instr.opcode).Consults state.host host) :
    machine.InStep host id args state (count + 1) := by
  obtain ⟨halike, events, hjournal, hevents⟩ := h
  have hhost := machine.advance_host count (machine.startCall id args [] state)
  rw [hrunning] at halike hjournal hhost
  obtain ⟨hstep, more, hmore, hunaffected⟩ :=
    hfaces.step_withHost htrace (hhost.trans (machine.startCall_host id args state)) hconsults
  refine ⟨?_, events ++ more, ?_, hevents.append hunaffected⟩
  · rw [advance_succ_of_running hrunning, advance_succ_of_running halike, hstep]
  · rw [advance_succ_of_running hrunning, hmore, ← List.append_assoc]
    exact congrArg (· ++ more) hjournal

theorem Reached.inStep_or_parts (hreached : machine.Reached frames state)
    (haccepted : machine.program.Accepted)
    (hfunction : machine.program.function? id = some function)
    (hargs : args.size = function.argCount) (htrace : machine.config.trace = true) (count : Nat) :
    machine.InStep host id args state count ∨
      ∃ first execution instr, machine.Parts host id args state first execution instr := by
  induction count with
  | zero => exact .inl (inStep_zero machine host id args state)
  | succ count ih =>
    rcases ih with hstep | hparts
    · cases hcount : machine.advance count (machine.startCall id args [] state) with
      | ended outcome final => exact .inl (hstep.of_ended hcount)
      | running execution =>
        obtain ⟨instr, hfaces⟩ := hreached.exists_faces haccepted hfunction hargs hcount
        by_cases hconsults : (execution.record instr.opcode).Consults state.host host
        · exact .inr ⟨count, execution, instr, hstep, hcount, hfaces, hconsults⟩
        · exact .inl (hstep.of_running htrace hcount hfaces hconsults)
    · exact .inr hparts

theorem Parts.running_withHost
    (h : machine.Parts host id args state count execution instr) :
    machine.advance count (machine.startCall id args [] (state.withHost host)) =
      .running { execution with state := execution.state.withHost host } := by
  rw [h.inStep.alike, h.running]
  rfl

theorem Reached.diverge (hreached : machine.Reached frames state)
    (haccepted : machine.program.Accepted)
    (hfunction : machine.program.function? id = some function)
    (hargs : args.size = function.argCount) (htrace : machine.config.trace = true)
    (hparts : machine.Parts host id args state count execution instr)
    {fuel' : Nat} {outcome' : Outcome} {final' : State}
    (hended : machine.advance fuel (machine.startCall id args [] state) = .ended outcome final)
    (hended' : machine.advance fuel' (machine.startCall id args []
      (state.withHost host)) = .ended outcome' final') :
    ∃ common last rest rest',
      final.journal.toList = state.journal.toList ++ (common ++ .trace last :: rest) ∧
      final'.journal.toList = state.journal.toList ++ (common ++ .trace last :: rest') ∧
      Event.Unaffected state.host host common ∧ last.Consults state.host host ∧
      (last.opcode.Prints →
        (∀ message, state.host.Refuses message →
          outcome = .error (.fault (.output message)) ∧ rest = []) ∧
        (∀ message, host.Refuses message →
          outcome' = .error (.fault (.output message)) ∧ rest' = [])) := by
  obtain ⟨common, hcommon, hunaffected⟩ := hparts.inStep.journal
  have hrunning' := hparts.running_withHost
  have hfaces' := hparts.faces.withState (execution.state.withHost host)
  obtain ⟨rest, hrest⟩ := hparts.faces.exists_journal htrace hparts.running hended
  obtain ⟨rest', hrest'⟩ := hfaces'.exists_journal htrace hrunning' hended'
  have hjournal : execution.state.journal.toList = state.journal.toList ++ common := by
    rw [hparts.running] at hcommon
    exact hcommon
  have hjournal' : (execution.state.withHost host).journal.toList =
      state.journal.toList ++ common := hjournal
  -- Where a run ends with the record, nothing can come after it.
  have hlast : ∀ (before : List Event) (event : Event) (after : List Event),
      before ++ event :: after = before ++ [event] → after = [] := by
    intro before event after hsame
    exact (List.cons.inj (List.append_cancel_left hsame)).2
  refine ⟨common, execution.record instr.opcode, rest, rest', ?_, ?_, hunaffected,
    hparts.consults, fun hprints => ⟨fun message hrefuses => ?_, fun message hrefuses => ?_⟩⟩
  · rw [hrest, hjournal, List.append_assoc]
  · rw [hrest', hjournal', List.append_assoc]
    rfl
  · obtain ⟨houtcome, hend⟩ := hreached.refused haccepted hfunction hargs htrace hrefuses
      hparts.running hparts.faces hprints hended
    exact ⟨houtcome, hlast _ _ _ (hrest.symm.trans hend)⟩
  · obtain ⟨houtcome, hend⟩ := (hreached.hosted host).refused haccepted hfunction hargs
      htrace hrefuses hrunning' hfaces' hprints hended'
    exact ⟨houtcome, hlast _ _ _ (hrest'.symm.trans hend)⟩

/-- Two runs from states that differ in the host alone agree in everything, or they have a record in
common that tells of an instruction on whose outcome the hosts may differ, and everything before it.
If the hosts tell the same times, nothing was written out by then, and one that takes no text ends
the run there. -/
theorem runWithArgs_interference (haccepted : machine.program.Accepted)
    (hreached : machine.Reached frames state) (htrace : machine.config.trace = true)
    (hfunction : machine.program.function? id = some function)
    (hargs : args.size = function.argCount) {fuel' : Nat} {outcome' : Outcome} {final' : State}
    (hrun : machine.runWithArgs fuel id args state = some (outcome, final))
    (hrun' : machine.runWithArgs fuel' id args (state.withHost host) =
      some (outcome', final')) :
    ((∀ record ∈ Event.traceOf (final.journal.toList.drop state.journal.size),
        ¬ record.Consults state.host host) ∧
      outcome' = outcome ∧ final' = final.withHost host) ∨
    ∃ common last rest rest',
      final.journal.toList.drop state.journal.size = common ++ .trace last :: rest ∧
      final'.journal.toList.drop state.journal.size = common ++ .trace last :: rest' ∧
      (∀ record ∈ Event.traceOf common, ¬ record.Consults state.host host) ∧
      last.Consults state.host host ∧
      (host.times = state.host.times → Event.outputOf common = [] ∧
        (∀ message, state.host.Refuses message →
          outcome = .error (.fault (.output message)) ∧ rest = []) ∧
        (∀ message, host.Refuses message →
          outcome' = .error (.fault (.output message)) ∧ rest' = [])) := by
  have hstart : ∀ state, machine.startWithArgs id args state =
      machine.startCall id args [] state := by
    intro state
    simp only [startWithArgs, hfunction, if_pos hargs]
  rw [runWithArgs, hstart, run_eq_some_iff] at hrun hrun'
  rcases hreached.inStep_or_parts haccepted hfunction hargs htrace fuel with hstep | hparts
  · left
    obtain ⟨halike, events, hjournal, hunaffected⟩ := hstep
    rw [hrun] at halike hjournal
    obtain ⟨rfl, rfl⟩ := ended_unique halike hrun'
    have hevents : final.journal.toList = state.journal.toList ++ events := hjournal
    refine ⟨?_, rfl, rfl⟩
    rw [hevents, ← Array.length_toList, List.drop_left]
    exact hunaffected.records
  · right
    obtain ⟨first, execution, instr, hparts⟩ := hparts
    obtain ⟨common, last, rest, rest', hjournal, hjournal', hunaffected, hconsults, hends⟩ :=
      hreached.diverge haccepted hfunction hargs htrace hparts hrun hrun'
    refine ⟨common, last, rest, rest', ?_, ?_, hunaffected.records, hconsults, fun htimes => ?_⟩
    · rw [hjournal, ← Array.length_toList, List.drop_left]
    · rw [hjournal', ← Array.length_toList, List.drop_left]
    · rcases hconsults with ⟨-, hdiffer⟩ | ⟨hprints, hdiffer⟩
      · exact absurd htimes hdiffer
      · exact ⟨hunaffected.output hdiffer, hends hprints⟩

end Runs

end Machine

def announcing : Program where
  name := "announcing"
  functions := #[
    { name := "main", id := 0, argCount := 1, localCount := 0, maxStackDepth := 1
      code := (List.flatMap Instruction.encode [.pushArg 0, .call 1 1, .ret]).toArray },
    { name := "announce", id := 1, argCount := 1, localCount := 0, maxStackDepth := 1
      code := (List.flatMap Instruction.encode [.pushArg 0, .printInt64, .currentTime,
        .ret]).toArray }]
  strings := #[]

theorem announcing_accepted : announcing.Accepted :=
  Program.Verifies.accepted (by decide +kernel) (by decide +kernel)

namespace Machine

def announcingCompiled : Machine where
  program := announcing
  config := { tiering := .tiered 1, trace := true }

theorem run_announcing :
    (announcingCompiled.runWithArgs 20 0 #[7] (State.initial announcing)).map (·.1) = some (.ok 0) ∧
      (announcingCompiled.runWithArgs 20 0 #[7]
        ((State.initial announcing).withHost (.recording 0 true))).map (·.1) =
          some (.error (.fault (.output Host.closedMessage))) := by
  decide +kernel

theorem runWithArgs_interference_announcing : ∃ final final' common last rest,
    announcingCompiled.runWithArgs 20 0 #[7] (State.initial announcing) = some (.ok 0, final) ∧
    announcingCompiled.runWithArgs 20 0 #[7]
        ((State.initial announcing).withHost (.recording 0 true)) =
      some (.error (.fault (.output Host.closedMessage)), final') ∧
    final.journal.toList.drop 0 = common ++ .trace last :: rest ∧
    final'.journal.toList.drop 0 = common ++ [.trace last] ∧ Event.outputOf common = [] ∧
    last.opcode.Prints := by
  obtain ⟨⟨outcome, final⟩, hrun, rfl⟩ := Option.map_eq_some_iff.1 run_announcing.1
  obtain ⟨⟨outcome', final'⟩, hrun', rfl⟩ := Option.map_eq_some_iff.1 run_announcing.2
  have haccepted : announcingCompiled.program.Accepted := announcing_accepted
  have hfunction : announcingCompiled.program.function? 0 = some announcing.functions[0] := rfl
  rcases runWithArgs_interference haccepted .initial rfl hfunction rfl hrun hrun' with
    ⟨-, houtcome, -⟩ | ⟨common, last, rest, rest', hjournal, hjournal', -, hconsults, hends⟩
  · cases houtcome
  · obtain ⟨houtput, -, hrefused⟩ := hends rfl
    obtain ⟨-, rfl⟩ := hrefused _ (Host.refuses_recording 0)
    refine ⟨final, final', common, last, rest, hrun, hrun', hjournal, hjournal', houtput, ?_⟩
    rcases TraceRecord.consults_recording_iff.1 hconsults with ⟨-, hdiffer⟩ | ⟨hprints, -⟩
    · exact absurd rfl hdiffer
    · exact hprints

end Machine
end TieredVM
