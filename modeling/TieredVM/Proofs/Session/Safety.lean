import TieredVM.Proofs.Machine.Typed
import TieredVM.Proofs.Session.Reached
set_option autoImplicit false

namespace TieredVM

theorem Progress.Typed.of_ended {program : Program} {outcome : Outcome} {state : State}
    (h : (Progress.ended outcome state).Typed program) : outcome.Orderly := by
  cases h with
  | ended hstate houtcome => exact houtcome

theorem Progress.Typed.verified {program : Program} {progress : Progress}
    (h : progress.Typed program) : progress.state.Verified program := by
  cases h with
  | running hstate => exact hstate
  | ended hstate => exact hstate

def dividing : Program where
  name := "dividing"
  functions := #[
    { name := "main", id := 0, argCount := 1, localCount := 0, maxStackDepth := 1
      code := (List.flatMap Instruction.encode [.pushArg 0, .call 1 1, .ret]).toArray },
    { name := "share", id := 1, argCount := 1, localCount := 0, maxStackDepth := 2
      code := (List.flatMap Instruction.encode [.pushConstant 100, .pushArg 0, .nop, .binary .div,
        .ret]).toArray }]
  strings := #[]

theorem dividing_accepted : dividing.Accepted :=
  Program.Verifies.accepted (by decide +kernel) (by decide +kernel)

namespace Machine

variable {machine : Machine} {frames : List FrameLink} {state : State} {id : Nat}
  {function : Function} {args : Array Int64}

theorem typed_startWithArgs (state : State) (haccepted : machine.program.Accepted)
    (hfunction : machine.program.function? id = some function)
    (hargs : args.size = function.argCount) :
    (machine.plain.startWithArgs id args (state.bare machine.program)).Typed machine.program := by
  have hplain : machine.plain.program.function? id = some function := hfunction
  simp only [startWithArgs, hplain, if_pos hargs]
  exact typed_startCall (by simp) haccepted (.of_bare state) hfunction hargs

/-- A run of an accepted program that ends comes to an orderly end. -/
theorem runWithArgs_orderly (haccepted : machine.program.Accepted)
    (hreached : machine.Reached frames state)
    (hfunction : machine.program.function? id = some function)
    (hargs : args.size = function.argCount) {fuel : Nat} {outcome : Outcome} {final : State}
    (hrun : machine.runWithArgs fuel id args state = some (outcome, final)) :
    outcome.Orderly := by
  -- The plain run ends in the same way, and it never leaves the typed states.
  have hfollows := follows_startWithArgs id args (State.echoes_bare hreached.tiers)
  obtain ⟨count, hcount⟩ := exists_plain_advance hfollows fuel
  rw [run_eq_some_iff.1 hrun] at hcount
  obtain ⟨echo, hecho, -⟩ := hcount.of_ended
  have htyped := typed_advance haccepted
    (typed_startWithArgs state haccepted hfunction hargs) count
  rw [hecho] at htyped
  exact htyped.of_ended

def dividingCompiled : Machine where
  program := dividing
  config := { dispatch := .switch, tiering := .tiered 1, trace := true }

theorem run_dividing : (dividingCompiled.runWithArgs 20 0 #[0] (State.initial dividing)).map (·.1) =
    some (.error (.fault (.divisionByZero "share" 19))) := by
  decide +kernel

theorem runWithArgs_orderly_dividing : ∃ outcome final,
    dividingCompiled.runWithArgs 20 0 #[0] (State.initial dividing) = some (outcome, final) ∧
      outcome.Orderly := by
  obtain ⟨result, hrun, -⟩ := Option.map_eq_some_iff.1 run_dividing
  have haccepted : dividingCompiled.program.Accepted := dividing_accepted
  have hfunction : dividingCompiled.program.function? 0 = some dividing.functions[0] := rfl
  exact ⟨result.1, result.2, hrun, runWithArgs_orderly haccepted .initial hfunction rfl hrun⟩

/-- At any time in a run of an accepted program, what the run has traced is verified. -/
theorem trace_verified (haccepted : machine.program.Accepted)
    (hreached : machine.Reached frames state)
    (hfunction : machine.program.function? id = some function)
    (hargs : args.size = function.argCount) (count : Nat) (record : TraceRecord)
    (hrecord : record ∈ Event.traceOf ((machine.advance count
      (machine.startWithArgs id args state)).state.journal.toList.drop state.journal.size)) :
    record.Verified machine.program := by
  have hfollows := follows_startWithArgs id args (State.echoes_bare hreached.tiers)
  obtain ⟨plainCount, hcount⟩ := exists_plain_advance hfollows count
  obtain ⟨events, hjournal, -, -, htrace⟩ := hcount.echoes.journal
  rw [hjournal, ← Array.length_toList, List.drop_left] at hrecord
  have htyped := typed_advance haccepted
    (typed_startWithArgs state haccepted hfunction hargs) plainCount
  exact htyped.verified.records record (htrace record hrecord)

theorem trace_verified_dividing : ∃ record ∈ Event.traceOf ((dividingCompiled.advance 5
    (dividingCompiled.startWithArgs 0 #[0] (State.initial dividing))).state.journal.toList.drop 0),
    record.opcode = .div ∧ record.Verified dividing := by
  have haccepted : dividingCompiled.program.Accepted := dividing_accepted
  have hfunction : dividingCompiled.program.function? 0 = some dividing.functions[0] := rfl
  have hrecord : (⟨1, "share", 19, .div, 2, 2⟩ : TraceRecord) ∈ Event.traceOf
      ((dividingCompiled.advance 5 (dividingCompiled.startWithArgs 0 #[0]
        (State.initial dividing))).state.journal.toList.drop 0) := by
    decide +kernel
  exact ⟨_, hrecord, rfl, trace_verified haccepted .initial hfunction rfl 5 _ hrecord⟩

end Machine
end TieredVM
