import TieredVM.CommandLine.Live
import TieredVM.Proofs.CommandLine.Stages
import TieredVM.Proofs.Machine.Journal
set_option autoImplicit false

namespace TieredVM

structure Transcript where
  readings : Nat := 0
  written : List Chunk := []

/-- Its clock shows the given times one after the other, and what is written to it is kept. -/
def Console.scripted (times : Nat → Int64) : Console (StateM Transcript) where
  readClock transcript :=
    (times transcript.readings, { transcript with readings := transcript.readings + 1 })
  write chunks transcript := ((), { transcript with written := transcript.written ++ chunks })

namespace Progress

def transcript (progress : Progress) : Transcript where
  readings := progress.state.timesTold
  written := progress.state.journal.toList.filterMap Event.chunk?

/-- A live run is where a run is that keeps its events, told the given times: the events that the
live run has forgotten were written out. -/
def IsLive (times : Nat → Int64) (kept live : Progress) (transcript : Transcript) : Prop :=
  ∃ past, kept = live.amid past (.telling times) ∧
    transcript.readings = kept.state.timesTold ∧
    transcript.written = past.toList.filterMap Event.chunk?

variable {times : Nat → Int64} {kept live : Progress} {transcript : Transcript}

theorem state_amid (past : Array Event) (host : Host) (progress : Progress) :
    (progress.amid past host).state = progress.state.amid past host := by
  cases progress <;> rfl

theorem amid_amid (past past' : Array Event) (host host' : Host) (progress : Progress) :
    (progress.amid past host).amid past' host' = progress.amid (past' ++ past) host' := by
  cases progress <;> simp [amid, State.amid, Array.append_assoc]

@[simp] theorem forget_forget (progress : Progress) : progress.forget.forget = progress.forget := by
  cases progress <;> rfl

@[simp] theorem journal_forget (progress : Progress) : progress.forget.state.journal = #[] := by
  cases progress <;> rfl

theorem forget_amid (host : Host) (progress : Progress) :
    progress.forget.amid progress.state.journal host = progress.amid #[] host := by
  cases progress <;> simp [forget, amid, State.amid, state]

theorem IsLive.forget (h : IsLive times kept live transcript) :
    IsLive times kept live.forget ((Console.scripted times).report live transcript).2 := by
  obtain ⟨past, rfl, hreadings, hwritten⟩ := h
  refine ⟨past ++ live.state.journal, ?_, hreadings, ?_⟩
  · rw [← amid_amid live.state.journal past live.state.host, forget_amid, amid_amid,
      Array.append_empty]
  · rw [Array.toList_append, List.filterMap_append, ← hwritten]
    rfl

theorem IsLive.report (h : IsLive times kept live transcript) : ∃ host,
    (Console.scripted times).report live transcript =
      (kept.forget.withHost host, kept.transcript) := by
  obtain ⟨past, rfl, hreadings, hwritten⟩ := h
  refine ⟨live.state.host, Prod.ext ?_ ?_⟩
  · cases live <;> rfl
  · rw [Progress.transcript, ← hreadings, state_amid, State.amid, Array.toList_append,
      List.filterMap_append, ← hwritten]
    rfl

end Progress

namespace Console

open Progress (IsLive)

variable {times : Nat → Int64} {machine : Machine}

theorem step_scripted (times : Nat → Int64) (machine : Machine) (execution : Execution)
    (transcript : Transcript) : ∃ host : Host,
    (machine.asksTime execution = true →
      host.times execution.state.timesTold = times transcript.readings) ∧
    (∀ n, host.refusals n = none) ∧
    (scripted times).step machine execution transcript =
      (machine.step { execution with state := execution.state.withHost host },
        { transcript with
          readings := transcript.readings + (machine.asksTime execution).toNat }) := by
  cases hasks : machine.asksTime execution with
  | true =>
    refine ⟨.telling fun _ => times transcript.readings, fun _ => rfl, fun _ => rfl, ?_⟩
    simp only [step, hasks]
    rfl
  | false =>
    refine ⟨.telling fun _ => 0, nofun, fun _ => rfl, ?_⟩
    simp only [step, hasks]
    rfl

theorem isLive_step {kept live : Execution} {transcript : Transcript}
    (h : IsLive times (.running kept) (.running live) transcript) :
    IsLive times (machine.step kept) ((scripted times).step machine live transcript).1
      ((scripted times).step machine live transcript).2 := by
  obtain ⟨past, hkept, hreadings, hwritten⟩ := h
  obtain rfl : kept = { live with state := live.state.amid past (.telling times) } :=
    Progress.running.inj hkept
  obtain ⟨host, htime, hrefusals, hstep⟩ := step_scripted times machine live transcript
  rw [hstep]
  refine ⟨past, ?_, ?_, hwritten⟩
  · have hlive := @Machine.step_amid machine past (.telling times)
      { live with state := live.state.withHost host }
    refine hlive ?_ ?_
    · intro next frame hasked
      have hasks : machine.asksTime live = true := by
        change machine.asked live = _ at hasked
        simp only [Machine.asksTime, hasked]
      exact (congrArg times hreadings).symm.trans (htime hasks).symm
    · exact fun _ _ _ _ => (hrefusals _).symm
  · rw [machine.step_timesTold, hreadings]
    rfl

theorem isLive_startMain (times : Nat → Int64) (machine : Machine) :
    IsLive times (machine.startMain (.initialAt machine.program times))
      (machine.startMain (State.initial machine.program)) {} := by
  refine ⟨#[], machine.startMain_amid _, ?_, rfl⟩
  exact (machine.writes_startMain (.initialAt machine.program times)).told.symm

theorem run_scripted {kept live : Progress} {transcript : Transcript}
    (h : IsLive times kept live transcript) (machine : Machine) (fuel : Nat) : ∃ host,
    (scripted times).run machine fuel live transcript =
      ((machine.advance fuel kept).forget.withHost host,
        (machine.advance fuel kept).transcript) := by
  induction fuel generalizing kept live transcript with
  | zero =>
    rw [Machine.advance_zero]
    exact h.report
  | succ fuel ih =>
    obtain ⟨past, rfl, -⟩ := id h
    cases live with
    | ended outcome state =>
      rw [Progress.amid, Machine.advance_ended]
      exact h.report
    | running execution => exact ih (isLive_step h.forget)

/-- Waits until the clock has gone on by five. -/
def lingering : Machine where
  program := {
    name := "lingering"
    functions := #[
      { name := "main", id := 0, argCount := 0, localCount := 1, maxStackDepth := 2
        code := (List.flatMap Instruction.encode [.currentTime, .pushConstant 5, .binary .add,
          .popLocal 0, .currentTime, .pushLocal 0, .branch .less 20, .pushConstant 1,
          .ret]).toArray }]
    strings := #[] }
  config := { tiering := .interpretOnly }

example : ((scripted Int64.ofNat).run lingering 30
    (lingering.startMain (State.initial lingering.program)) {}).2.readings = 6 := by
  decide +kernel

section

variable {m : Type → Type} [Monad m] [LawfulMonad m] {console : Console m}

theorem run_ended (fuel : Nat) (outcome : Outcome) (state : State) :
    console.run machine fuel (.ended outcome state) = console.report (.ended outcome state) := by
  cases fuel with
  | zero => rfl
  | succ fuel => simp [run, report, Progress.forget]

theorem report_run (hsilent : console.write [] = pure ()) (fuel : Nat) (progress : Progress) :
    console.report progress >>= console.run machine fuel = console.run machine fuel progress := by
  cases fuel <;> simp [run, report, hsilent]

/-- A live run may be interrupted anywhere, if nothing is done for writing nothing. -/
theorem run_add (hsilent : console.write [] = pure ()) (first second : Nat) (progress : Progress) :
    console.run machine first progress >>= console.run machine second =
      console.run machine (first + second) progress := by
  induction first generalizing progress with
  | zero =>
    rw [Nat.zero_add]
    exact report_run hsilent second progress
  | succ first ih =>
    cases progress with
    | ended outcome state =>
      rw [run_ended, report_run hsilent, run_ended, run_ended]
    | running execution =>
      rw [Nat.succ_add]
      simp [run, report, Progress.forget, ih]

end

end Console

namespace CommandLine

variable {args : List String} {read : String → Except ReadError (List UInt8)}
  {times : Nat → Int64} {fuel : Nat} {ending : Ending}

/-- An invocation that comes as far as running a program does so live. -/
theorem invoke_eq_some_iff :
    invoke args read times fuel = some ending ↔
      prepare args read = .error ending ∨
      ∃ dump machine outcome state transcript,
        prepare args read = .ok (dump, machine) ∧
        (Console.scripted times).run machine fuel
          (machine.startMain (State.initial machine.program)) {} =
            (.ended outcome state, transcript) ∧
        ending = { conclude outcome with
          written := dump ++ transcript.written ++ (conclude outcome).written } := by
  cases hprepare : prepare args read with
  | error found => simp [invoke_of_error hprepare]
  | ok prepared =>
    obtain ⟨dump, machine⟩ := prepared
    have hlive := Console.isLive_startMain times machine
    obtain ⟨host, hrun⟩ := Console.run_scripted hlive machine fuel
    rw [invoke_of_ok hprepare, Option.map_eq_some_iff]
    constructor
    · rintro ⟨⟨outcome, final⟩, hmain, rfl⟩
      rw [Machine.run_eq_some_iff.1 hmain] at hrun
      exact .inr ⟨dump, machine, outcome, _, _, rfl, hrun, rfl⟩
    · rintro (herror | ⟨_, _, outcome, state, transcript, hfound, hended, rfl⟩)
      · cases herror
      · cases hfound
        rw [hrun] at hended
        obtain ⟨hprogress, rfl⟩ := Prod.mk.inj hended
        cases hadvance : machine.advance fuel
            (machine.startMain (.initialAt machine.program times)) with
        | running execution =>
          rw [hadvance] at hprogress
          cases hprogress
        | ended found final =>
          rw [hadvance] at hprogress
          cases hprogress
          exact ⟨(outcome, final), Machine.run_eq_some_iff.2 hadvance, rfl⟩

end CommandLine
end TieredVM
