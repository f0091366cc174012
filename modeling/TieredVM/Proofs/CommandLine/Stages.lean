import TieredVM.Proofs.CommandLine.Selection
import TieredVM.Proofs.Session.Timeless
/-!
The stages of an invocation: reading the options, the file and the program, choosing a set-up and
finding `main`. Each stage that fails ends the invocation with an exit code of its own.
-/
set_option autoImplicit false

namespace TieredVM

def Chunk.stdout : Chunk → List UInt8
  | out bytes => bytes
  | err _ => []

def Ending.stdout (ending : Ending) : List UInt8 := ending.written.flatMap Chunk.stdout

@[simp] theorem Chunk.stdout_errLine (line : String) : (errLine line).stdout = [] := rfl

theorem Event.stdout_chunks (events : List Event) :
    (events.filterMap chunk?).flatMap Chunk.stdout = outputOf events := by
  induction events with
  | nil => rfl
  | cons event events ih =>
    cases event <;> simp [outputOf, chunk?, Chunk.stdout, Chunk.errLine] at ih ⊢ <;> exact ih

namespace CommandLine

inductive Stage where
  | reading
  | loading
  | selecting
  | running

namespace Stage

def exitCode : Stage → Int
  | reading => -1
  | loading => -2
  | selecting => -3
  | running => -4

theorem exitCode_ne_zero (stage : Stage) : stage.exitCode ≠ 0 := by
  cases stage <;> decide

theorem exitCode_inj {stage stage' : Stage} (h : stage.exitCode = stage'.exitCode) :
    stage = stage' := by
  cases stage <;> cases stage' <;> first | rfl | exact absurd h (by decide)

end Stage

section Stages

variable {args : List String} {read : String → Except ReadError (List UInt8)} {options : Options}
  {file : List UInt8} {program : Program}

/-- The options ask for more than help, and their file can be read. -/
structure Reads (args : List String) (read : String → Except ReadError (List UInt8))
    (options : Options) (file : List UInt8) : Prop where
  parsed : Options.parse args = .ok options
  help : options.help = false
  content : read options.programFile = .ok file

def Loads (args : List String) (read : String → Except ReadError (List UInt8)) (options : Options)
    (program : Program) : Prop :=
  ∃ file, Reads args read options file ∧ Program.load file = .ok program

/-- The program is to be run, and the options choose a machine for that. -/
structure Selected (args : List String) (read : String → Except ReadError (List UInt8))
    (options : Options) (machine : Machine) : Prop where
  loads : Loads args read options machine.program
  loadOnly : options.loadOnly = false
  config : ∃ n found, Selects options.interpreterType n ∧ Config.ofSelection? n = some found ∧
    machine.config = { found with trace := options.trace, verbose := options.verbose }
  compiler : machine.compiler = {}

/-- The machine on which an invocation starts `main`. -/
def Starts (args : List String) (read : String → Except ReadError (List UInt8))
    (machine : Machine) (main : Function) : Prop :=
  ∃ options, Selected args read options machine ∧ machine.program.findFunction? "main" = some main

def prepare (args : List String) (read : String → Except ReadError (List UInt8)) :
    Except Ending (List Chunk × Machine) := do
  let options ← readOptions args
  let program ← loadProgram options (read options.programFile)
  prepareRun options program

theorem prepare_of_refused {error : UsageError} (h : Options.parse args = .error error) :
    prepare args read = .error {
      written := errorLine error.message :: .errLine "" :: usage
      exitCode := exitUsage } := by
  simp [prepare, readOptions, h]

theorem prepare_of_help (h : Options.parse args = .ok options) (hhelp : options.help = true) :
    prepare args read = .error { written := usage, exitCode := 0 } := by
  simp [prepare, readOptions, h, hhelp]

theorem prepare_of_unreadable {error : ReadError} (h : Options.parse args = .ok options)
    (hhelp : options.help = false) (hread : read options.programFile = .error error) :
    prepare args read = .error {
      written := [errorLine s!"cannot read '{options.programFile}': {error.message}"]
      exitCode := exitUsage } := by
  simp [prepare, readOptions, loadProgram, h, hhelp, hread]

theorem prepare_of_malformed {error : ProgramError} (h : Reads args read options file)
    (hload : Program.load file = .error error) :
    prepare args read = .error { written := loadErrors error, exitCode := exitMalformed } := by
  simp [prepare, readOptions, loadProgram, h.parsed, h.help, h.content, hload]

theorem prepare_of_loads (h : Loads args read options program) :
    prepare args read = prepareRun options program := by
  obtain ⟨file, hreads, hload⟩ := h
  simp [prepare, readOptions, loadProgram, hreads.parsed, hreads.help, hreads.content, hload]

theorem prepare_of_loadOnly (h : Loads args read options program)
    (hloadOnly : options.loadOnly = true) :
    prepare args read = .error {
      written := (if options.dump then [.outText program.dump] else []) ++
        [.outText s!"Finished parsing program \"{program.name}\" with no errors\n"]
      exitCode := 0 } := by
  rw [prepare_of_loads h]
  simp [prepareRun, hloadOnly]

theorem prepare_of_unknown (h : Loads args read options program)
    (hloadOnly : options.loadOnly = false) (hnone : ∀ n, ¬ Selects options.interpreterType n) :
    prepare args read = .error {
      written := (if options.dump then [.outText program.dump] else []) ++
        [errorLine s!"unknown interpreter type {options.interpreterType}"]
      exitCode := exitUnknownInterpreter } := by
  rw [prepare_of_loads h]
  simp [prepareRun, hloadOnly, config?_eq_none_iff.2 hnone]

theorem Selected.prepare_eq {machine : Machine} (h : Selected args read options machine) :
    prepare args read =
      match machine.program.findFunction? "main" with
      | none => .error {
          written := (if options.dump then [.outText machine.program.dump] else []) ++
            [.errLine "Failed to find main function"]
          exitCode := 0 }
      | some _ => .ok (if options.dump then [.outText machine.program.dump] else [], machine) := by
  obtain ⟨⟨program, config, compiler⟩, hmachine⟩ : ∃ found, found = machine := ⟨_, rfl⟩
  subst hmachine
  obtain rfl : compiler = {} := h.compiler
  have hconfig : config? options = some config := config?_eq_some_iff.2 h.config
  rw [prepare_of_loads h.loads]
  simp only [prepareRun, h.loadOnly, hconfig]
  cases program.findFunction? "main" <;> rfl

theorem readOptions_eq_ok_iff :
    readOptions args = .ok options ↔ Options.parse args = .ok options ∧ options.help = false := by
  unfold readOptions
  cases Options.parse args with
  | error error => simp
  | ok found => cases hhelp : found.help <;> grind

theorem loadProgram_eq_ok_iff {content : Except ReadError (List UInt8)} :
    loadProgram options content = .ok program ↔
      ∃ file, content = .ok file ∧ Program.load file = .ok program := by
  unfold loadProgram
  cases content with
  | error error => simp
  | ok file => cases hload : Program.load file <;> simp [hload]

theorem exists_starts {dump : List Chunk} {machine : Machine}
    (h : prepare args read = .ok (dump, machine)) : ∃ main, Starts args read machine main := by
  simp only [prepare, bind_eq_ok_iff, readOptions_eq_ok_iff, loadProgram_eq_ok_iff] at h
  obtain ⟨options, ⟨hparse, hhelp⟩, program, ⟨file, hread, hload⟩, h⟩ := h
  have hloads : Loads args read options program := ⟨file, ⟨hparse, hhelp, hread⟩, hload⟩
  unfold prepareRun at h
  simp only at h
  split at h
  · cases h
  · rename_i hloadOnly
    split at h
    · cases h
    · rename_i config hconfig
      split at h
      · cases h
      · rename_i main hmain
        cases h
        have hselected : Selected args read options { program, config } :=
          ⟨hloads, by simpa using hloadOnly, config?_eq_some_iff.1 hconfig, rfl⟩
        exact ⟨main, options, hselected, hmain⟩

/-- An invocation fails at a stage, since it has come as far as that. -/
inductive Fails (args : List String) (read : String → Except ReadError (List UInt8))
    (times : Nat → Int64) (fuel : Nat) : Stage → Prop
  | refused {error : UsageError} : Options.parse args = .error error →
    Fails args read times fuel .reading
  | unreadable {options : Options} {error : ReadError} : Options.parse args = .ok options →
    options.help = false → read options.programFile = .error error →
    Fails args read times fuel .reading
  | malformed {options : Options} {file : List UInt8} {error : ProgramError} :
    Reads args read options file → Program.load file = .error error →
    Fails args read times fuel .loading
  | unknown {options : Options} {program : Program} : Loads args read options program →
    options.loadOnly = false → (∀ n, ¬ Selects options.interpreterType n) →
    Fails args read times fuel .selecting
  | failed {machine : Machine} {main : Function} {fault : Fault} {final : State} :
    Starts args read machine main →
    machine.runMain fuel (.initialAt machine.program times) = some (.error (.fault fault), final) →
    Fails args read times fuel .running

theorem Starts.accepted {machine : Machine} {main : Function} (h : Starts args read machine main) :
    machine.program.Accepted := by
  obtain ⟨options, hselected, -⟩ := h
  obtain ⟨file, -, hload⟩ := hselected.loads
  exact .loaded hload

theorem invoke_of_error {ending : Ending} (h : prepare args read = .error ending)
    (times : Nat → Int64) (fuel : Nat) : invoke args read times fuel = some ending := by
  simp only [prepare] at h
  simp only [invoke, h]

theorem invoke_of_ok {dump : List Chunk} {machine : Machine}
    (h : prepare args read = .ok (dump, machine)) (times : Nat → Int64) (fuel : Nat) :
    invoke args read times fuel =
      (machine.runMain fuel (.initialAt machine.program times)).map fun result =>
        { conclude result.1 with
          written := dump ++ result.2.journal.toList.filterMap Event.chunk? ++
            (conclude result.1).written } := by
  simp only [prepare] at h
  simp only [invoke, h]
  rfl

theorem Starts.exists_prepare_eq {machine : Machine} {main : Function}
    (h : Starts args read machine main) : ∃ dump, prepare args read = .ok (dump, machine) := by
  obtain ⟨options, hselected, hmain⟩ := h
  have hprepare := hselected.prepare_eq
  simp only [hmain] at hprepare
  exact ⟨_, hprepare⟩

section Ends

variable {times : Nat → Int64} {fuel : Nat} {ending : Ending}
  (h : invoke args read times fuel = some ending)
include h

theorem eq_of_prepare {found : Ending} (hprepare : prepare args read = .error found) :
    ending = found := by
  rw [invoke_of_error hprepare] at h
  exact (Option.some.inj h).symm

theorem exitCode_of_invoke : ending.exitCode = 0 ∨
    ∃ stage, Fails args read times fuel stage ∧ ending.exitCode = stage.exitCode := by
  cases hparse : Options.parse args with
  | error error =>
    rw [eq_of_prepare h (prepare_of_refused hparse)]
    exact .inr ⟨_, .refused hparse, rfl⟩
  | ok options =>
    cases hhelp : options.help with
    | true =>
      rw [eq_of_prepare h (prepare_of_help hparse hhelp)]
      exact .inl rfl
    | false =>
      cases hread : read options.programFile with
      | error error =>
        rw [eq_of_prepare h (prepare_of_unreadable hparse hhelp hread)]
        exact .inr ⟨_, .unreadable hparse hhelp hread, rfl⟩
      | ok file =>
        have hreads : Reads args read options file := ⟨hparse, hhelp, hread⟩
        cases hload : Program.load file with
        | error error =>
          rw [eq_of_prepare h (prepare_of_malformed hreads hload)]
          exact .inr ⟨_, .malformed hreads hload, rfl⟩
        | ok program =>
          have hloads : Loads args read options program := ⟨file, hreads, hload⟩
          cases hloadOnly : options.loadOnly with
          | true =>
            rw [eq_of_prepare h (prepare_of_loadOnly hloads hloadOnly)]
            exact .inl rfl
          | false =>
            cases hconfig : config? options with
            | none =>
              have hnone := config?_eq_none_iff.1 hconfig
              rw [eq_of_prepare h (prepare_of_unknown hloads hloadOnly hnone)]
              exact .inr ⟨_, .unknown hloads hloadOnly hnone, rfl⟩
            | some config =>
              have hselected : Selected args read options { program, config } :=
                ⟨hloads, hloadOnly, config?_eq_some_iff.1 hconfig, rfl⟩
              have hprepare := hselected.prepare_eq
              cases hmain : program.findFunction? "main" with
              | none =>
                simp only [hmain] at hprepare
                rw [eq_of_prepare h hprepare]
                exact .inl rfl
              | some main =>
                simp only [hmain] at hprepare
                rw [invoke_of_ok hprepare, Option.map_eq_some_iff] at h
                obtain ⟨⟨outcome, final⟩, hrun, rfl⟩ := h
                have hstarts : Starts args read { program, config } main :=
                  ⟨options, hselected, hmain⟩
                cases Machine.concludes_of_runMain hstarts.accepted hmain hrun with
                | returned | halted => exact .inl rfl
                | divisionByZero | arityMismatch => exact .inr ⟨_, .failed hstarts hrun, rfl⟩

theorem exitCode_eq_iff (stage : Stage) :
    ending.exitCode = stage.exitCode ↔ Fails args read times fuel stage := by
  constructor
  · intro hcode
    rcases exitCode_of_invoke h with hzero | ⟨found, hfails, hfound⟩
    · exact absurd (hcode.symm.trans hzero) stage.exitCode_ne_zero
    · exact Stage.exitCode_inj (hfound.symm.trans hcode) ▸ hfails
  · intro hfails
    cases hfails with
    | refused hparse => rw [eq_of_prepare h (prepare_of_refused hparse)]; rfl
    | unreadable hparse hhelp hread =>
      rw [eq_of_prepare h (prepare_of_unreadable hparse hhelp hread)]; rfl
    | malformed hreads hload => rw [eq_of_prepare h (prepare_of_malformed hreads hload)]; rfl
    | unknown hloads hloadOnly hnone =>
      rw [eq_of_prepare h (prepare_of_unknown hloads hloadOnly hnone)]; rfl
    | failed hstarts hrun =>
      obtain ⟨dump, hprepare⟩ := hstarts.exists_prepare_eq
      rw [invoke_of_ok hprepare, hrun] at h
      cases h
      rfl

end Ends

end Stages

end CommandLine
end TieredVM
