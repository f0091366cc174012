import TieredVM.Machine.Calls
set_option autoImplicit false

namespace TieredVM

def FrameStats.add (first second : FrameStats) : FrameStats where
  inlineFrames := first.inlineFrames + second.inlineFrames
  heapAllocations := first.heapAllocations + second.heapAllocations
  heapReleases := first.heapReleases + second.heapReleases

instance : Add FrameStats := ⟨FrameStats.add⟩

theorem FrameStats.add_def (first second : FrameStats) : first + second =
    ⟨first.inlineFrames + second.inlineFrames, first.heapAllocations + second.heapAllocations,
      first.heapReleases + second.heapReleases⟩ := rfl

structure Effect where
  output : List UInt8
  stats : FrameStats
  trace : List TraceRecord
  deriving DecidableEq, Repr

namespace Event

def workOf (events : List Event) : List TraceRecord :=
  (traceOf events).filter (·.opcode ≠ .nop)

@[simp] theorem outputOf_append (first second : List Event) :
    outputOf (first ++ second) = outputOf first ++ outputOf second := by
  simp [outputOf]

@[simp] theorem traceOf_append (first second : List Event) :
    traceOf (first ++ second) = traceOf first ++ traceOf second := by
  simp [traceOf]

@[simp] theorem workOf_append (first second : List Event) :
    workOf (first ++ second) = workOf first ++ workOf second := by
  simp [workOf]

end Event

/-- The first state with an effect added to it is the second. -/
structure State.Adds (before : State) (effect : Effect) (after : State) : Prop where
  stats : after.stats = before.stats + effect.stats
  journal : ∃ events, after.journal.toList = before.journal.toList ++ events ∧
    Event.outputOf events = effect.output ∧ Event.workOf events = effect.trace

/-- Every slot is that of a function, and holds its compiled code if it holds any. -/
structure Program.Tiers (program : Program) (tiers : Array TierSlot) : Prop where
  size : tiers.size = program.functions.size
  entry : ∀ id slot code, tiers[id]? = some slot → slot.entry = some code →
    ∃ function, program.function? id = some function ∧
      ThreadedCode.translate program function = .ok code

theorem Program.tiers_initial (program : Program) :
    program.Tiers (State.initial program).tiers where
  size := by simp [State.initial]
  entry id slot code hslot hentry := by
    simp only [State.initial, Array.getElem?_map, Option.map_eq_some_iff] at hslot
    obtain ⟨function, -, rfl⟩ := hslot
    cases hentry

namespace State

theorem print_eq_some {state after : State} {text : List UInt8} {message : String}
    (h : state.print text = (some message, after)) :
    state.host.refusals state.textsGiven = some message ∧ after = state.given := by
  unfold print at h
  split at h <;> cases h
  exact ⟨‹_›, rfl⟩

theorem print_eq_none {state after : State} {text : List UInt8}
    (h : state.print text = (none, after)) :
    state.host.refusals state.textsGiven = none ∧ after = state.given.record (.output text) := by
  unfold print at h
  split at h <;> cases h
  exact ⟨‹_›, rfl⟩

/-- What the host is still going to answer. -/
def answers (state : State) : Host where
  times n := state.host.times (state.timesTold + n)
  refusals n := state.host.refusals (state.textsGiven + n)

theorem answers_of_recording {state : State} {clock : Int64} {closed : Bool}
    (h : state.host = .recording clock closed) : state.answers = .recording clock closed := by
  rw [answers, h]
  rfl

theorem answers_time (state : State) : state.time.2.answers =
    { state.answers with times := fun n => state.answers.times (n + 1) } := by
  simp only [answers, time, Nat.add_assoc, Nat.add_comm 1]

theorem answers_given (state : State) : state.given.answers =
    { state.answers with refusals := fun n => state.answers.refusals (n + 1) } := by
  simp only [answers, given, Nat.add_assoc, Nat.add_comm 1]

end State

/-- A state and the bare state of a run that does the same from the state `base` on, but only
interprets and reports nothing else. -/
structure State.Echoes (program : Program) (state base echo : State) : Prop where
  tiers : program.Tiers state.tiers
  bare : echo.tiers = (State.initial program).tiers
  chain : state.chain = echo.chain
  answers : state.answers = echo.answers
  stats : state.stats = base.stats + echo.stats
  journal : ∃ events, state.journal.toList = base.journal.toList ++ events ∧
    Event.outputOf events = Event.outputOf echo.journal.toList ∧
    Event.workOf events = Event.workOf echo.journal.toList ∧
    ∀ record ∈ Event.traceOf events, record ∈ Event.traceOf echo.journal.toList

namespace State

/-- The state of a machine that has nothing but the open frames and the host of the given one. -/
def bare (program : Program) (state : State) : State :=
  { initial program with
    chain := state.chain, host := state.host, timesTold := state.timesTold,
    textsGiven := state.textsGiven }

theorem echoes_bare_of_answers {program : Program} {state other : State}
    (h : program.Tiers state.tiers) (hchain : state.chain = other.chain)
    (hanswers : state.answers = other.answers) :
    state.Echoes program state (other.bare program) where
  tiers := h
  bare := rfl
  chain := hchain
  answers := hanswers
  stats := rfl
  journal := ⟨[], by simp, rfl, rfl, by simp [Event.traceOf]⟩

theorem echoes_bare {program : Program} {state : State} (h : program.Tiers state.tiers) :
    state.Echoes program state (state.bare program) :=
  echoes_bare_of_answers h rfl rfl

namespace Echoes

variable {program : Program} {state base echo : State}

theorem record (h : state.Echoes program base echo) (event : Event) :
    (state.record event).Echoes program base (echo.record event) := by
  obtain ⟨events, hjournal, houtput, hwork, htrace⟩ := h.journal
  refine { h with journal := ⟨events ++ [event], ?_, ?_, ?_, ?_⟩ }
  · simp [State.record, hjournal]
  · simp [State.record, houtput]
  · simp [State.record, hwork]
  · intro record hrecord
    simp only [State.record, Array.toList_push, Event.traceOf_append, List.mem_append] at *
    rcases hrecord with hrecord | hrecord
    · exact .inl (htrace record hrecord)
    · exact .inr hrecord

theorem record_left (h : state.Echoes program base echo) {event : Event}
    (houtput : Event.outputOf [event] = []) (htrace : Event.traceOf [event] = []) :
    (state.record event).Echoes program base echo := by
  obtain ⟨events, hjournal, ho, hw, ht⟩ := h.journal
  have hwork : Event.workOf [event] = [] := by simp [Event.workOf, htrace]
  refine { h with journal := ⟨events ++ [event], ?_, ?_, ?_, ?_⟩ }
  · simp [State.record, hjournal]
  · simp [houtput, ho]
  · simp [hwork, hw]
  · simpa [htrace] using ht

theorem record_nop (h : state.Echoes program base echo) {record : TraceRecord}
    (hnop : record.opcode = .nop) :
    state.Echoes program base (echo.record (.trace record)) := by
  obtain ⟨events, hjournal, ho, hw, ht⟩ := h.journal
  have houtput : Event.outputOf [.trace record] = [] := rfl
  have hwork : Event.workOf [.trace record] = [] := by
    simp [Event.workOf, Event.traceOf, hnop]
  refine { h with journal := ⟨events, hjournal, ?_, ?_, ?_⟩ }
  · simp [State.record, ho, houtput]
  · simp [State.record, hw, hwork]
  · intro found hfound
    simp only [State.record, Array.toList_push, Event.traceOf_append, List.mem_append]
    exact .inl (ht found hfound)

theorem time (h : state.Echoes program base echo) :
    state.time.1 = echo.time.1 ∧ state.time.2.Echoes program base echo.time.2 := by
  have hanswers : state.time.2.answers = echo.time.2.answers := by
    rw [answers_time, answers_time, h.answers]
  exact ⟨congrArg (Host.times · 0) h.answers, { h with answers := hanswers }⟩

theorem print (h : state.Echoes program base echo) (text : List UInt8) :
    (state.print text).1 = (echo.print text).1 ∧
      (state.print text).2.Echoes program base (echo.print text).2 := by
  have hrefusal : state.host.refusals state.textsGiven = echo.host.refusals echo.textsGiven :=
    congrArg (Host.refusals · 0) h.answers
  have hanswers : state.given.answers = echo.given.answers := by
    rw [answers_given, answers_given, h.answers]
  have hgiven : state.given.Echoes program base echo.given := { h with answers := hanswers }
  simp only [State.print, hrefusal]
  cases echo.host.refusals echo.textsGiven with
  | none => exact ⟨rfl, hgiven.record _⟩
  | some message => exact ⟨rfl, hgiven⟩

theorem enter (h : state.Echoes program base echo) (function : Function) (args : Array Int64) :
    (state.enter function args).2.Echoes program base (echo.enter function args).2 := by
  have hstats := h.stats
  refine { h with chain := ?_, stats := ?_ }
  · simp [State.enter, h.chain]
  · simp only [State.enter, FrameStats.add_def] at *
    split <;> simp [hstats, Nat.add_assoc]

theorem leave (h : state.Echoes program base echo) :
    state.leave.Echoes program base echo.leave := by
  have hstats := h.stats
  unfold State.leave
  rw [h.chain]
  cases hchain : echo.chain with
  | nil => exact h
  | cons link chain =>
    simp only
    split
    · exact { h with chain := rfl, stats := by simp [hstats, FrameStats.add_def, Nat.add_assoc] }
    · exact { h with chain := rfl }

theorem unwind (h : state.Echoes program base echo) (count : Nat) :
    (state.unwind count).Echoes program base (echo.unwind count) := by
  induction count generalizing state echo with
  | zero => exact h
  | succ count ih => exact ih h.leave

theorem setTiers (h : state.Echoes program base echo) {tiers : Array TierSlot}
    (ht : program.Tiers tiers) : ({ state with tiers } : State).Echoes program base echo :=
  { h with tiers := ht }

theorem adds (h : state.Echoes program base echo) :
    base.Adds ⟨Event.outputOf echo.journal.toList, echo.stats, Event.workOf echo.journal.toList⟩
      state where
  stats := h.stats
  journal := by
    obtain ⟨events, hjournal, houtput, hwork, -⟩ := h.journal
    exact ⟨events, hjournal, houtput, hwork⟩

end Echoes
end State
end TieredVM
