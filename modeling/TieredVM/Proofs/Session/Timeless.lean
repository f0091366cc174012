import TieredVM.Proofs.Machine.Host
import TieredVM.Proofs.Session.Safety
import TieredVM.Proofs.Session.Transparency
set_option autoImplicit false

namespace TieredVM

/-- Before the first call, with a host that takes all output and tells the given times. -/
def State.initialAt (program : Program) (times : Nat → Int64) : State :=
  { State.initial program with host := .telling times }

@[simp] theorem State.withHost_initialAt (program : Program) (times times' : Nat → Int64) :
    (initialAt program times).withHost (.telling times') = initialAt program times' := rfl

theorem State.echoes_initialAt (program : Program) (times : Nat → Int64) :
    (initialAt program times).Echoes program (initialAt program times) (initialAt program times) :=
  State.echoes_bare program.tiers_initial

def Progress.opcode? : Progress → Option Opcode
  | .running execution => execution.active.tier.opcode? execution.active.place
  | .ended _ _ => none

namespace Machine

variable {machine : Machine} {times times' : Nat → Int64} {host : Host}

/-- At no time in a run is `CURRENT_TIME` about to run. -/
def Timeless (machine : Machine) (progress : Progress) : Prop :=
  ∀ count, (machine.advance count progress).opcode? ≠ some .currentTime

theorem timeless_of_ended {progress : Progress} {count : Nat} {outcome : Outcome} {final : State}
    (hended : machine.advance count progress = .ended outcome final)
    (h : ∀ k < count, (machine.advance k progress).opcode? ≠ some .currentTime) :
    machine.Timeless progress := by
  intro k
  rcases Nat.lt_or_ge k count with hlt | hge
  · exact h k hlt
  · obtain ⟨later, rfl⟩ := Nat.exists_eq_add_of_le hge
    rw [advance_add, hended, advance_ended]
    intro hopcode
    cases hopcode

def Untimed (machine : Machine) (progress : Progress) : Prop :=
  ∀ count execution next frame, machine.advance count progress = .running execution →
    machine.asked execution ≠ .ok (.time next frame)

theorem Untimed.step {execution : Execution} (h : machine.Untimed (.running execution)) :
    machine.Untimed (machine.step execution) :=
  fun count => h (count + 1)

theorem Untimed.advance_withHost {progress : Progress} (h : machine.Untimed progress)
    (hrefusals : host.refusals = progress.state.host.refusals) (count : Nat) :
    machine.advance count (progress.withHost host) =
      (machine.advance count progress).withHost host := by
  induction count generalizing progress with
  | zero => simp
  | succ count ih =>
    cases progress with
    | ended outcome state => simp [Progress.withHost]
    | running execution =>
      have hstep : machine.step { execution with state := execution.state.withHost host } =
          (machine.step execution).withHost host :=
        step_withHost host
          (fun next frame hasked => absurd hasked (h 0 execution next frame rfl))
          fun _ _ _ _ => congrFun hrefusals _
      have hlater : host.refusals = (machine.step execution).state.host.refusals := by
        rw [machine.step_host execution]
        exact hrefusals
      rw [Progress.withHost, advance, hstep, ih h.step hlater]
      rfl

def Open (progress : Progress) : Prop :=
  (∀ n, progress.state.host.refusals n = none) ∧
    ∀ message state, progress ≠ .ended (.error (.fault (.output message))) state

section Plain

variable {base : State} {progress plain : Progress} {execution : Execution}

theorem exists_yields (h : (Progress.running execution).Typed machine.program) :
    ∃ function instr, execution.active.tier = .interpreted function ∧
      Instruction.decode function.code execution.active.place = .ok instr ∧
      instr.Yields ⟨function, execution.active.place⟩ (machine.plain.asked execution) := by
  cases h with
  | @running state active callers _ hactive _ =>
    obtain ⟨tier, place, frame⟩ := active
    obtain ⟨function, summary, rfl, -, hchecked, -, hdepth⟩ := hactive
    obtain ⟨instr, hallows⟩ := hchecked.allows hdepth
    have hasked : machine.plain.asked ⟨state, ⟨.interpreted function, place, frame⟩, callers⟩ = _ :=
      interpret_eq_perform ⟨function, place⟩ hallows.decoded
    refine ⟨function, instr, rfl, hallows.decoded, ?_⟩
    rw [hasked]
    exact instr.perform_yields _ _ _ _ _

theorem open_step (htyped : (Progress.running execution).Typed machine.program)
    (hopen : ∀ n, execution.state.host.refusals n = none) :
    Open (machine.plain.step execution) := by
  refine ⟨by rwa [machine.plain.step_host execution], fun message state hended => ?_⟩
  obtain ⟨function, instr, -, -, hyields⟩ := exists_yields htyped
  have hasked : machine.plain.asked execution ≠ .error (.fault (.output message)) := by
    intro hasked
    rw [hasked] at hyields
    cases hyields with
    | fails horderly => exact horderly (.output message)
  cases (hopen _).symm.trans (refusal_of_step hasked hended)

theorem open_advance (haccepted : machine.program.Accepted)
    (htyped : progress.Typed machine.program) (hopen : Open progress) (count : Nat) :
    Open (machine.plain.advance count progress) := by
  induction count generalizing progress with
  | zero => simpa using hopen
  | succ count ih =>
    cases progress with
    | ended outcome state => exact hopen
    | running execution => exact ih (typed_step haccepted htyped) (open_step htyped hopen.1)

theorem Timeless.untimed (h : machine.Timeless progress) (haccepted : machine.program.Accepted)
    (hfollows : progress.Follows machine.program base plain)
    (htyped : plain.Typed machine.program) : machine.plain.Untimed plain := by
  intro plainCount execution next frame hadvance hasked
  obtain ⟨count, hcount⟩ := exists_advance hfollows plainCount
  have hexecution := typed_advance haccepted htyped plainCount
  rw [hadvance] at hcount hexecution
  obtain ⟨function, instr, htier, hdecode, hyields⟩ := exists_yields hexecution
  rw [hasked] at hyields
  cases hyields with
  | times _ _ hinstr =>
    have htimeless := h count
    generalize machine.advance count progress = reached at hcount htimeless
    cases hcount with
    | running _ hplace _ =>
      cases htier
      rcases hplace.agrees_or_skips with hagrees | ⟨hnop, -⟩
      · refine htimeless (hagrees.opcode.trans ?_)
        rw [← hinstr]
        exact Instruction.opcode_of_decode hdecode
      · rw [hdecode] at hnop
        cases hnop
        cases hinstr

theorem alike_of_untimed {a b : Machine} {s t : State} {first second : Progress}
    (hplain : a.plain = b.plain) (huntimed : a.plain.Untimed plain)
    (hrefusals : host.refusals = plain.state.host.refusals)
    (hfirst : first.Follows a.program s plain)
    (hsecond : second.Follows b.program t (plain.withHost host)) :
    Alike (a.run · first) (b.run · second) s t := by
  constructor
  · intro fuel outcome after hrun
    obtain ⟨count, hcount⟩ := exists_plain_advance hfirst fuel
    rw [run_eq_some_iff.1 hrun] at hcount
    obtain ⟨echo, hecho, hechoes⟩ := hcount.of_ended
    obtain ⟨fuel', hfuel⟩ := exists_advance hsecond count
    rw [← hplain, huntimed.advance_withHost hrefusals, hecho] at hfuel
    obtain ⟨after', hafter, hechoes'⟩ := hfuel.of_plain_ended
    exact ⟨fuel', after', _, run_eq_some_iff.2 hafter, hechoes.adds, hechoes'.adds⟩
  · intro fuel outcome after hrun
    obtain ⟨count, hcount⟩ := exists_plain_advance hsecond fuel
    rw [run_eq_some_iff.1 hrun] at hcount
    obtain ⟨echo, hecho, hechoes⟩ := hcount.of_ended
    rw [← hplain, huntimed.advance_withHost hrefusals] at hecho
    obtain ⟨fuel', hfuel⟩ := exists_advance hfirst count
    cases hended : a.plain.advance count plain with
    | running execution =>
      rw [hended] at hecho
      cases hecho
    | ended found state =>
      rw [hended] at hecho hfuel
      cases hecho
      obtain ⟨after', hafter, hechoes'⟩ := hfuel.of_plain_ended
      exact ⟨fuel', after', _, run_eq_some_iff.2 hafter, hechoes.adds, hechoes'.adds⟩

end Plain

section Main

variable {main : Function}

theorem function?_of_findFunction? {program : Program} (haccepted : program.Accepted)
    {name : String} (h : program.findFunction? name = some main) :
    program.function? main.id = some main := by
  obtain ⟨id, hid⟩ := Array.mem_iff_getElem?.1 (Array.mem_of_find?_eq_some h)
  obtain ⟨rfl, -⟩ := haccepted.checked hid
  exact hid

theorem startWithArgs_initialAt {id : Nat} {args : Array Int64}
    (hfunction : machine.program.function? id = some main) (hargs : args.size = main.argCount) :
    machine.plain.startWithArgs id args (State.initialAt machine.program times) =
      enter (.interpreted main) args [] (State.initialAt machine.program times) := by
  have hplain : machine.plain.program.function? id = some main := hfunction
  have hbare : (State.initialAt machine.program times).tiers =
      (State.initial machine.program).tiers := rfl
  simp only [startWithArgs, hplain, if_pos hargs, startCall, plain_resolve hbare hfunction, start]

theorem typed_initialAt {id : Nat} {args : Array Int64} (haccepted : machine.program.Accepted)
    (hfunction : machine.program.function? id = some main) (hargs : args.size = main.argCount) :
    (machine.plain.startWithArgs id args (.initialAt machine.program times)).Typed
      machine.program :=
  typed_startWithArgs (.initialAt machine.program times) haccepted hfunction hargs

/-- The ends to which a run of `main` comes on a machine that is given output. -/
inductive Concludes (main : Function) : Outcome → Prop
  | returned (value : Int64) : Concludes main (.ok value)
  | halted : Concludes main (.error .halt)
  | divisionByZero (function : String) (offset : Nat) :
    Concludes main (.error (.fault (.divisionByZero function offset)))
  | arityMismatch : main.argCount ≠ 0 →
    Concludes main (.error (.fault (.arityMismatch main.name main.argCount 0)))

theorem concludes_of_runMain (haccepted : machine.program.Accepted)
    (hmain : machine.program.findFunction? "main" = some main) {fuel : Nat} {outcome : Outcome}
    {final : State}
    (hrun : machine.runMain fuel (.initialAt machine.program times) = some (outcome, final)) :
    Concludes main outcome := by
  have hfunction := function?_of_findFunction? haccepted hmain
  simp only [runMain, startMain, hmain] at hrun
  by_cases hargs : (#[] : Array Int64).size = main.argCount
  · have hfollows := follows_startWithArgs main.id #[]
      (State.echoes_initialAt machine.program times)
    obtain ⟨count, hcount⟩ := exists_plain_advance hfollows fuel
    rw [run_eq_some_iff.1 hrun] at hcount
    obtain ⟨echo, hecho, -⟩ := hcount.of_ended
    have htyped : (machine.plain.startWithArgs main.id #[]
        (.initialAt machine.program times)).Typed machine.program :=
      typed_initialAt haccepted hfunction hargs
    have hopen : Open (machine.plain.startWithArgs main.id #[]
        (.initialAt machine.program times)) := by
      rw [startWithArgs_initialAt hfunction hargs]
      exact ⟨fun _ => rfl, fun message state hended => by cases hended⟩
    have horderly := typed_advance haccepted htyped count
    have houtput := (open_advance haccepted htyped hopen count).2
    rw [hecho] at horderly houtput
    cases horderly.of_ended with
    | returned value => exact .returned value
    | halted => exact .halted
    | divisionByZero function offset => exact .divisionByZero function offset
    | output message => exact absurd rfl (houtput message echo)
  · simp only [startWithArgs, hfunction, if_neg hargs, run_ended, Option.some.injEq] at hrun
    cases hrun
    exact .arityMismatch fun hzero => hargs hzero.symm

/-- Whatever time it is, and whichever machine runs the program, `main` ends alike if its run is
timeless. -/
theorem Timeless.alike_runMain {a b : Machine} (haccepted : a.program.Accepted)
    (hprogram : a.program = b.program) (htrace : a.config.trace = b.config.trace)
    (hmain : a.program.findFunction? "main" = some main)
    (h : a.Timeless (a.startMain (.initialAt a.program times))) (times' : Nat → Int64) :
    Alike (a.runMain · (.initialAt a.program times)) (b.runMain · (.initialAt b.program times'))
      (.initialAt a.program times) (.initialAt b.program times') := by
  have hplain : a.plain = b.plain := by
    simp only [plain, hprogram, htrace]
  have hfunction := function?_of_findFunction? haccepted hmain
  have hmain' : b.program.findFunction? "main" = some main := hprogram ▸ hmain
  simp only [runMain, startMain, hmain, hmain'] at h ⊢
  have hfirst := follows_startWithArgs main.id #[] (State.echoes_initialAt a.program times)
  have hsecond := follows_startWithArgs main.id #[] (State.echoes_initialAt b.program times')
  have hretime : ∀ times', a.plain.startWithArgs main.id #[] (.initialAt a.program times') =
      (a.plain.startWithArgs main.id #[] (.initialAt a.program times)).withHost
        (.telling times') := by
    intro times'
    rw [← startWithArgs_withHost, State.withHost_initialAt]
  have hlater : b.plain.startWithArgs main.id #[] (.initialAt b.program times') =
      (a.plain.startWithArgs main.id #[] (.initialAt a.program times)).withHost
        (.telling times') := by
    rw [← hplain, ← hprogram, hretime]
  rw [hlater] at hsecond
  refine alike_of_untimed hplain ?_ ?_ hfirst hsecond
  · by_cases hargs : (#[] : Array Int64).size = main.argCount
    · exact h.untimed haccepted hfirst (typed_initialAt haccepted hfunction hargs)
    · have hfunction : a.plain.program.function? main.id = some main := hfunction
      intro count execution next frame hadvance
      simp only [startWithArgs, hfunction, if_neg hargs, advance_ended] at hadvance
      cases hadvance
  · have hhost := congrArg (·.state.host) (hretime times)
    simp only [Progress.state_withHost] at hhost
    rw [hhost]
    rfl

end Main

end Machine
end TieredVM
