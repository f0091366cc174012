import TieredVM.CommandLine.Files
import TieredVM.CommandLine.Options
import TieredVM.Machine.Calls
import TieredVM.Program.Dump
import TieredVM.Text.Bytes
import TieredVM.Verify.Load
/-!
What the program does when it is invoked: it reads its options, loads a program file, and shows or
runs the program. Whatever is written goes to standard output or standard error; the exit code
tells the first stage that failed.
-/
set_option autoImplicit false

namespace TieredVM

inductive Chunk where
  | out (bytes : List UInt8)
  | err (bytes : List UInt8)
  deriving DecidableEq, Repr

namespace Chunk

def outText (text : String) : Chunk := out (Text.bytes text)

def errLine (line : String) : Chunk := err (Text.bytes (line ++ "\n"))

end Chunk

def TraceRecord.line (record : TraceRecord) : String :=
  s!"[{record.callDepth}] {record.name}+{record.offset} {record.opcode.mnemonic} " ++
    s!"depth {record.depth}"

def Event.chunk? : Event → Option Chunk
  | output text => some (.out text)
  | diagnostic text => some (.errLine text)
  | trace record => some (.errLine record.line)
  | compile _ => none
  | invoke _ _ _ => none

structure Ending where
  written : List Chunk
  exitCode : Int
  deriving DecidableEq, Repr

namespace CommandLine

def exitUsage : Int := -1

def exitMalformed : Int := -2

def exitUnknownInterpreter : Int := -3

def exitRuntime : Int := -4

def usage : List Chunk := [
  .errLine "Usage: elle [options] <programFile>",
  .errLine "",
  .errLine "Options:",
  .errLine "  -it <0|1|2>   Interpreter: 0 switch, 1 table, 2 table with tiering (default 2)",
  .errLine "  -o            Dump the program after loading",
  .errLine "  -l            Only load the program, do not run it",
  .errLine "  -t            Trace execution",
  .errLine "  -v            Report tiering decisions",
  .errLine "  -h, --help    Show this message"]

def errorLine (message : String) : Chunk := .errLine s!"error: {message}"

def readOptions (args : List String) : Except Ending Options :=
  match Options.parse args with
  | .error error =>
    .error {
      written := errorLine error.message :: .errLine "" :: usage
      exitCode := exitUsage }
  | .ok options =>
    if options.help then .error { written := usage, exitCode := 0 } else .ok options

/-- The number that decimal digits stand for, with or without a plus sign before them. -/
def parseNumber? (text : String) : Option Nat :=
  let digits :=
    match text.toList with
    | '+' :: digits => digits
    | digits => digits
  if digits.isEmpty then none
  else
    digits.foldlM (fun n digit =>
      if digit.isDigit then some (n * 10 + (digit.toNat - '0'.toNat)) else none) 0

def config? (options : Options) : Option Config :=
  ((parseNumber? options.interpreterType).bind Config.ofSelection?).map fun config =>
    { config with trace := options.trace, verbose := options.verbose }

def loadErrors : ProgramError → List Chunk
  | .load error => [errorLine error.message]
  | .verify errors => errors.map fun error => errorLine error.message

def prepareRun (options : Options) (program : Program) : Except Ending (List Chunk × Machine) :=
  let dump := if options.dump then [.outText program.dump] else []
  if options.loadOnly then
    let line := s!"Finished parsing program \"{program.name}\" with no errors\n"
    .error { written := dump ++ [.outText line], exitCode := 0 }
  else
    match config? options with
    | none =>
      let line := errorLine s!"unknown interpreter type {options.interpreterType}"
      .error { written := dump ++ [line], exitCode := exitUnknownInterpreter }
    | some config =>
      match program.findFunction? "main" with
      | none =>
        .error { written := dump ++ [.errLine "Failed to find main function"], exitCode := 0 }
      | some _ => .ok (dump, { program, config })

def loadProgram (options : Options) (content : Except ReadError (List UInt8)) :
    Except Ending Program :=
  match content with
  | .error error =>
    let line := errorLine s!"cannot read '{options.programFile}': {error.message}"
    .error { written := [line], exitCode := exitUsage }
  | .ok file =>
    match Program.load file with
    | .error error => .error { written := loadErrors error, exitCode := exitMalformed }
    | .ok program => .ok program

def conclude : Outcome → Ending
  | .ok value => { written := [.outText s!"Main returned {value}\n"], exitCode := 0 }
  | .error .halt => { written := [.outText "Program halted\n"], exitCode := 0 }
  | .error (.fault fault) =>
    { written := [.errLine s!"runtime error: {fault.message}"], exitCode := exitRuntime }
  | .error .outOfRange =>
    { written := [.errLine "runtime error: slot out of range"], exitCode := exitRuntime }

/-- A whole invocation, where `read` gives the files and `times` are the times at which the clock is
read. The result is missing if the run takes more than `fuel` steps. -/
def invoke (args : List String) (read : String → Except ReadError (List UInt8))
    (times : Nat → Int64) (fuel : Nat) : Option Ending :=
  let prepared := do
    let options ← readOptions args
    let program ← loadProgram options (read options.programFile)
    prepareRun options program
  match prepared with
  | .error ending => some ending
  | .ok (written, machine) =>
    let state := { State.initial machine.program with host := .telling times }
    (machine.runMain fuel state).map fun (outcome, state) =>
      let ending := conclude outcome
      let events := state.journal.toList.filterMap Event.chunk?
      { ending with written := written ++ events ++ ending.written }

end CommandLine
end TieredVM
