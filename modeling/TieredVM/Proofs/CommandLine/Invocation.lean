import TieredVM.Proofs.CommandLine.Stages
import TieredVM.Proofs.Verify.Reordering
set_option autoImplicit false

namespace TieredVM.CommandLine

/-- How an invocation that has come to an end was settled: at which stage it has failed, and what
has not been done if it has ended before. -/
structure Settled (args : List String) (read : String → Except ReadError (List UInt8))
    (times : Nat → Int64) (fuel : Nat) (ending : Ending) : Prop where
  failure : ∀ stage : Stage,
    ending.exitCode = stage.exitCode ↔ Fails args read times fuel stage
  success : (∀ stage, ¬ Fails args read times fuel stage) → ending.exitCode = 0
  help : ∀ options, Options.parse args = .ok options → options.help = true →
    ending.exitCode = 0 ∧ ending.stdout = [] ∧
      ∀ read times fuel, invoke args read times fuel = some ending
  malformed : Fails args read times fuel .loading → ending.stdout = []
  loadOnly : ∀ options program, Loads args read options program → options.loadOnly = true →
    ending.exitCode = 0 ∧ ∀ times fuel, invoke args read times fuel = some ending
  mainless : ∀ options machine, Selected args read options machine →
    machine.program.findFunction? "main" = none →
    ending.exitCode = 0 ∧ ∀ times fuel, invoke args read times fuel = some ending
  run : ∀ machine main, Starts args read machine main → ∃ outcome final,
    machine.runMain fuel (.initialAt machine.program times) = some (outcome, final) ∧
      Machine.Concludes main outcome ∧
      (ending.exitCode = 0 ↔ (∃ value, outcome = .ok value) ∨ outcome = .error .halt)

/-- An invocation comes to an end with these bytes on standard output and this exit code. -/
def Shows (args : List String) (read : String → Except ReadError (List UInt8))
    (times : Nat → Int64) (stdout : List UInt8) (exitCode : Int) : Prop :=
  ∃ fuel ending, invoke args read times fuel = some ending ∧ ending.stdout = stdout ∧
    ending.exitCode = exitCode

/-- Two command lines that ask for the same, but each chooses a set-up of its own. -/
def Reselects (args args' : List String) : Prop :=
  ∃ options value n n', Options.parse args = .ok options ∧
    Options.parse args' = .ok { options with interpreter := value } ∧
    Selects options.interpreterType n ∧ Selects (value.getD "2") n'

section Codes

variable {args : List String} {read : String → Except ReadError (List UInt8)} {machine : Machine}
  {main : Function} {times : Nat → Int64} {fuel : Nat} {ending : Ending}

theorem exists_invoke_iff : (∃ ending, invoke args read times fuel = some ending) ↔
    ∀ machine main, Starts args read machine main →
      ∃ result, machine.runMain fuel (.initialAt machine.program times) = some result := by
  constructor
  · rintro ⟨ending, h⟩ machine main hstarts
    obtain ⟨dump, hprepare⟩ := hstarts.exists_prepare_eq
    rw [invoke_of_ok hprepare, Option.map_eq_some_iff] at h
    obtain ⟨result, hrun, -⟩ := h
    exact ⟨result, hrun⟩
  · intro h
    cases hprepare : prepare args read with
    | error ending => exact ⟨ending, invoke_of_error hprepare times fuel⟩
    | ok prepared =>
      obtain ⟨dump, machine⟩ := prepared
      obtain ⟨main, hstarts⟩ := exists_starts hprepare
      obtain ⟨result, hrun⟩ := h machine main hstarts
      rw [invoke_of_ok hprepare, hrun]
      exact ⟨_, rfl⟩

variable (h : invoke args read times fuel = some ending)
include h

theorem exists_run (hstarts : Starts args read machine main) : ∃ outcome final,
    machine.runMain fuel (.initialAt machine.program times) = some (outcome, final) ∧
      Machine.Concludes main outcome ∧
      (ending.exitCode = 0 ↔ (∃ value, outcome = .ok value) ∨ outcome = .error .halt) := by
  obtain ⟨dump, hprepare⟩ := hstarts.exists_prepare_eq
  rw [invoke_of_ok hprepare, Option.map_eq_some_iff] at h
  obtain ⟨⟨outcome, final⟩, hrun, rfl⟩ := h
  obtain ⟨options, -, hmain⟩ := id hstarts
  have hconcludes := Machine.concludes_of_runMain hstarts.accepted hmain hrun
  refine ⟨outcome, final, hrun, hconcludes, ?_⟩
  cases hconcludes with
  | returned | halted | divisionByZero | arityMismatch => simp [conclude, exitRuntime]

theorem settled_of_invoke : Settled args read times fuel ending where
  failure := exitCode_eq_iff h
  success hnone := by
    rcases exitCode_of_invoke h with hzero | ⟨stage, hfails, -⟩
    · exact hzero
    · exact absurd hfails (hnone stage)
  help options hparse hhelp := by
    have hending := eq_of_prepare h (prepare_of_help hparse hhelp)
    refine ⟨by rw [hending], by rw [hending]; rfl, fun read times fuel => ?_⟩
    rw [hending]
    exact invoke_of_error (prepare_of_help hparse hhelp) times fuel
  malformed hfails := by
    cases hfails with
    | @malformed options file error hreads hload =>
      rw [eq_of_prepare h (prepare_of_malformed hreads hload)]
      cases error with
      | load error => rfl
      | verify errors => simp [Ending.stdout, loadErrors, errorLine, List.flatMap_map]
  loadOnly options program hloads hloadOnly := by
    have hprepare := prepare_of_loadOnly hloads hloadOnly
    have hending := eq_of_prepare h hprepare
    rw [hending]
    exact ⟨rfl, invoke_of_error hprepare⟩
  mainless options machine hselected hmain := by
    have hprepare := hselected.prepare_eq
    simp only [hmain] at hprepare
    have hending := eq_of_prepare h hprepare
    rw [hending]
    exact ⟨rfl, invoke_of_error hprepare⟩
  run machine main hstarts := exists_run h hstarts

end Codes

section Selections

variable {args args' : List String} {read : String → Except ReadError (List UInt8)}
  {times times' : Nat → Int64} {stdout : List UInt8} {exitCode : Int}

theorem shows_of_error {ending : Ending} (hprepare : prepare args read = .error ending) :
    Shows args read times stdout exitCode ↔
      ending.stdout = stdout ∧ ending.exitCode = exitCode := by
  constructor
  · rintro ⟨fuel, found, h, hfound⟩
    rwa [eq_of_prepare h hprepare] at hfound
  · intro hending
    exact ⟨0, ending, invoke_of_error hprepare times 0, hending⟩

theorem shows_of_ok {dump : List Chunk} {machine : Machine}
    (hprepare : prepare args read = .ok (dump, machine)) :
    Shows args read times stdout exitCode ↔ ∃ fuel outcome final,
      machine.runMain fuel (.initialAt machine.program times) = some (outcome, final) ∧
        dump.flatMap Chunk.stdout ++ Event.outputOf final.journal.toList ++
          (conclude outcome).stdout = stdout ∧
        (conclude outcome).exitCode = exitCode := by
  simp only [Shows, invoke_of_ok hprepare, Option.map_eq_some_iff]
  constructor
  · rintro ⟨fuel, _, ⟨⟨outcome, final⟩, hrun, rfl⟩, hstdout, hcode⟩
    refine ⟨fuel, outcome, final, hrun, ?_, hcode⟩
    simpa [Ending.stdout, Event.stdout_chunks] using hstdout
  · rintro ⟨fuel, outcome, final, hrun, hstdout, hcode⟩
    refine ⟨fuel, _, ⟨_, hrun, rfl⟩, ?_, hcode⟩
    simpa [Ending.stdout, Event.stdout_chunks] using hstdout

theorem outputOf_of_adds {program : Program} {effect : Effect} {final : State}
    (h : (State.initialAt program times).Adds effect final) :
    Event.outputOf final.journal.toList = effect.output := by
  obtain ⟨events, hjournal, houtput, -⟩ := h.journal
  rw [hjournal, ← houtput]
  rfl

theorem shows_of_mirrors {dump : List Chunk} {a b : Machine}
    (hprepare : prepare args read = .ok (dump, a)) (hprepare' : prepare args' read = .ok (dump, b))
    (hmirrors : Mirrors (a.runMain · (.initialAt a.program times))
      (b.runMain · (.initialAt b.program times')) (.initialAt a.program times)
      (.initialAt b.program times'))
    (h : Shows args read times stdout exitCode) : Shows args' read times' stdout exitCode := by
  obtain ⟨fuel, outcome, final, hrun, hstdout, hcode⟩ := (shows_of_ok hprepare).1 h
  obtain ⟨fuel', final', effect, hrun', hadds, hadds'⟩ := hmirrors fuel outcome final hrun
  refine (shows_of_ok hprepare').2 ⟨fuel', outcome, final', hrun', ?_, hcode⟩
  rw [outputOf_of_adds hadds', ← outputOf_of_adds hadds]
  exact hstdout

theorem exists_selected {options : Options} {program : Program} {n : Nat}
    (hloads : Loads args read options program) (hloadOnly : options.loadOnly = false)
    (hn : Selects options.interpreterType n) :
    ∃ config, Selected args read options { program, config } ∧ config.trace = options.trace := by
  obtain ⟨found, hfound⟩ := Option.isSome_iff_exists.1 (ofSelection?_isSome_iff.2 hn.1)
  exact ⟨_, ⟨hloads, hloadOnly, ⟨n, found, hn, hfound, rfl⟩, rfl⟩, rfl⟩

theorem shows_iff_of_reselects (hreselects : Reselects args args')
    (htimeless : ∀ machine main, Starts args read machine main →
      machine.Timeless (machine.startMain (.initialAt machine.program times))) :
    Shows args read times stdout exitCode ↔ Shows args' read times' stdout exitCode := by
  obtain ⟨options, value, n, n', hparse, hparse', hn, hn'⟩ := hreselects
  have hsame : ∀ {ending}, prepare args read = .error ending → prepare args' read = .error ending →
      (Shows args read times stdout exitCode ↔ Shows args' read times' stdout exitCode) := by
    intro ending hprepare hprepare'
    rw [shows_of_error hprepare, shows_of_error hprepare']
  cases hhelp : options.help with
  | true => exact hsame (prepare_of_help hparse hhelp) (prepare_of_help hparse' hhelp)
  | false =>
    cases hread : read options.programFile with
    | error error =>
      have hprepare' := prepare_of_unreadable hparse' hhelp hread
      exact hsame (prepare_of_unreadable hparse hhelp hread) hprepare'
    | ok file =>
      have hreads : Reads args read options file := ⟨hparse, hhelp, hread⟩
      have hreads' : Reads args' read { options with interpreter := value } file :=
        ⟨hparse', hhelp, hread⟩
      cases hload : Program.load file with
      | error error =>
        exact hsame (prepare_of_malformed hreads hload) (prepare_of_malformed hreads' hload)
      | ok program =>
        have hloads : Loads args read options program := ⟨file, hreads, hload⟩
        have hloads' : Loads args' read { options with interpreter := value } program :=
          ⟨file, hreads', hload⟩
        cases hloadOnly : options.loadOnly with
        | true =>
          have hprepare' := prepare_of_loadOnly hloads' hloadOnly
          exact hsame (prepare_of_loadOnly hloads hloadOnly) hprepare'
        | false =>
          obtain ⟨config, hselected, htrace⟩ := exists_selected hloads hloadOnly hn
          obtain ⟨config', hselected', htrace'⟩ := exists_selected hloads' hloadOnly hn'
          have hprepare := hselected.prepare_eq
          have hprepare' := hselected'.prepare_eq
          cases hmain : program.findFunction? "main" with
          | none =>
            simp only [hmain] at hprepare hprepare'
            exact hsame hprepare hprepare'
          | some main =>
            simp only [hmain] at hprepare hprepare'
            have halike := (htimeless _ main ⟨options, hselected, hmain⟩).alike_runMain
              (a := { program, config }) (b := { program, config := config' }) (.loaded hload) rfl
              (htrace.trans htrace'.symm) hmain times'
            exact ⟨shows_of_mirrors hprepare hprepare' halike.left,
              shows_of_mirrors hprepare' hprepare halike.right⟩

end Selections

/-- An invocation ends if the run does that it starts, and the first stage that fails decides its
exit code. Which set-up is chosen shows neither there nor on standard output, unless the time is
told. -/
theorem invoke_settled (args : List String) (read : String → Except ReadError (List UInt8))
    (times : Nat → Int64) :
    (∀ fuel, (∃ ending, invoke args read times fuel = some ending) ↔
      ∀ machine main, Starts args read machine main →
        ∃ result, machine.runMain fuel (.initialAt machine.program times) = some result) ∧
    (∀ fuel ending, invoke args read times fuel = some ending →
      Settled args read times fuel ending) ∧
    ∀ args', Reselects args args' →
      (∀ machine main, Starts args read machine main →
        machine.Timeless (machine.startMain (.initialAt machine.program times))) →
      ∀ times' stdout exitCode,
        Shows args read times stdout exitCode ↔ Shows args' read times' stdout exitCode :=
  ⟨fun _ => exists_invoke_iff, fun _ _ h => settled_of_invoke h,
    fun _ hreselects htimeless _ _ _ => shows_iff_of_reselects hreselects htimeless⟩

def answering : Program where
  name := "answering"
  functions := #[
    { name := "main", id := 0, argCount := 0, localCount := 0, maxStackDepth := 2
      code := (List.flatMap Instruction.encode [.pushConstant 41, .call 1 1, .dup, .printInt64,
        .ret]).toArray },
    { name := "next", id := 1, argCount := 1, localCount := 0, maxStackDepth := 2
      code := (List.flatMap Instruction.encode [.pushArg 0, .jump 18, .nop, .pushConstant 1,
        .binary .add, .ret]).toArray }]
  strings := #[]

theorem load_answering : Program.load answering.toImage.encode = .ok answering :=
  Program.Verifies.load_encode (by decide +kernel) (by decide +kernel)

def answeringRead (path : String) : Except ReadError (List UInt8) :=
  if path = "answering.elle" then .ok answering.toImage.encode else .error .missing

theorem ofArg_answering : Options.ArgKind.ofArg "answering.elle" = .file "answering.elle" := by
  decide +kernel

theorem parse_switch : Options.parse ["-it", "0", "answering.elle"] =
    .ok { programFile := "answering.elle", interpreter := some "0" } := by
  have hoption : Options.ArgKind.ofArg "-it" = .interpreterNext := by decide +kernel
  simp only [Options.parse, Options.parseRest, hoption, ofArg_answering, Options.close]
  rfl

theorem parse_tiered : Options.parse ["-it+02", "answering.elle"] =
    .ok { programFile := "answering.elle", interpreter := some "+02" } := by
  have hoption : Options.ArgKind.ofArg "-it+02" = .interpreter "+02" := by decide +kernel
  simp only [Options.parse, Options.parseRest, hoption, ofArg_answering, Options.close]
  rfl

def answeringMachine : Machine where
  program := answering
  config := { dispatch := .switch, tiering := .interpretOnly }

theorem run_answering :
    (answeringMachine.runMain 20 (.initialAt answering Int64.ofNat)).map
      (fun result => (result.1, Event.outputOf result.2.journal.toList)) =
        some (.ok 42, [0x34, 0x32]) := by
  decide +kernel

theorem selected_answering : Selected ["-it", "0", "answering.elle"] answeringRead
    { programFile := "answering.elle", interpreter := some "0" } answeringMachine where
  loads := ⟨_, ⟨parse_switch, rfl, rfl⟩, load_answering⟩
  loadOnly := rfl
  config := ⟨0, _, ⟨by decide, [], 0, .inl rfl, by decide⟩, rfl, rfl⟩
  compiler := rfl

theorem prepare_answering :
    prepare ["-it", "0", "answering.elle"] answeringRead = .ok ([], answeringMachine) :=
  selected_answering.prepare_eq

theorem timeless_answering :
    answeringMachine.Timeless (answeringMachine.startMain (.initialAt answering Int64.ofNat)) := by
  obtain ⟨result, hrun, -⟩ := Option.map_eq_some_iff.1 run_answering
  exact Machine.timeless_of_ended (Machine.run_eq_some_iff.1 hrun) (by decide +kernel)

theorem shows_answering : Shows ["-it", "0", "answering.elle"] answeringRead Int64.ofNat
    (Text.bytes "42Main returned 42\n") 0 := by
  obtain ⟨⟨outcome, final⟩, hrun, hresult⟩ := Option.map_eq_some_iff.1 run_answering
  obtain ⟨rfl, houtput⟩ := Prod.mk.inj hresult
  refine (shows_of_ok prepare_answering).2 ⟨20, .ok 42, final, hrun, ?_, rfl⟩
  rw [houtput]
  decide +kernel

theorem invoke_settled_answering : ∃ fuel ending,
    invoke ["-it", "0", "answering.elle"] answeringRead Int64.ofNat fuel = some ending ∧
      Settled ["-it", "0", "answering.elle"] answeringRead Int64.ofNat fuel ending ∧
      Shows ["-it+02", "answering.elle"] answeringRead (fun _ => 5)
        (Text.bytes "42Main returned 42\n") 0 := by
  obtain ⟨-, hsettled, hreselects⟩ :=
    invoke_settled ["-it", "0", "answering.elle"] answeringRead Int64.ofNat
  obtain ⟨fuel, ending, hinvoke, -⟩ := id shows_answering
  refine ⟨fuel, ending, hinvoke, hsettled fuel ending hinvoke, ?_⟩
  have hboth : Reselects ["-it", "0", "answering.elle"] ["-it+02", "answering.elle"] :=
    ⟨_, _, 0, 2, parse_switch, parse_tiered, ⟨by decide, [], 0, .inl rfl, by decide⟩,
      by decide, ['+'], 1, .inr rfl, by decide⟩
  refine (hreselects _ hboth (fun machine main hstarts => ?_) (fun _ => 5) _ 0).1 shows_answering
  obtain ⟨dump, hprepare⟩ := hstarts.exists_prepare_eq
  rw [prepare_answering] at hprepare
  cases hprepare
  exact timeless_answering

end TieredVM.CommandLine
