import Std.Time.DateTime.Timestamp
import TieredVM.CommandLine.Live
set_option autoImplicit false

namespace TieredVM.CommandLine

def writeChunks (chunks : List Chunk) : IO Unit :=
  chunks.forM fun
    | .out bytes => do (← IO.getStdout).write ⟨bytes.toArray⟩
    | .err bytes => do
      (← IO.getStdout).flush
      (← IO.getStderr).write ⟨bytes.toArray⟩

def writeEnding (ending : Ending) : IO UInt32 := do
  writeChunks ending.written
  (← IO.getStdout).flush
  return UInt32.ofNat (ending.exitCode % 256).toNat

def readError : IO.Error → ReadError
  | .noFileOrDirectory _ code reason | .interrupted _ code reason
  | .invalidArgument _ code reason | .permissionDenied _ code reason
  | .resourceExhausted _ code reason | .inappropriateType _ code reason
  | .noSuchThing _ code reason | .alreadyExists _ code reason
  | .otherError code reason | .resourceBusy code reason | .resourceVanished code reason
  | .unsupportedOperation code reason | .hardwareFault code reason
  | .unsatisfiedConstraints code reason | .illegalOperation code reason
  | .protocolError code reason | .timeExpired code reason =>
    -- Some errors carry their number negated.
    .ofCode code.toInt32.toInt.natAbs reason
  | .unexpectedEof => { reason := "unexpected end of file", code := 0 }
  | .userError reason => { reason, code := 0 }

def readContent (path : String) : IO (Except ReadError (List UInt8)) := do
  try
    let content ← IO.FS.readBinFile path
    return .ok content.data.toList
  catch error =>
    return .error (readError error)

/-- The time in milliseconds since 1970, and zero before that. -/
def wallClock : IO Int64 := do
  let now ← Std.Time.Timestamp.now
  return Int64.ofInt (max 0 now.toMillisecondsSinceUnixEpoch.val)

def systemConsole : Console IO where
  readClock := wallClock
  write := writeChunks

/-- Runs to the end, a thousand steps at a time. -/
partial def runLive (machine : Machine) (progress : Progress) : IO UInt32 := do
  match ← systemConsole.run machine 1000 progress with
  | .ended outcome _ => writeEnding (conclude outcome)
  | progress => runLive machine progress

end TieredVM.CommandLine

open TieredVM TieredVM.CommandLine in
def main (args : List String) : IO UInt32 := do
  match readOptions args with
  | .error ending => writeEnding ending
  | .ok options =>
    let content ← readContent options.programFile
    match loadProgram options content >>= prepareRun options with
    | .error ending => writeEnding ending
    | .ok (written, machine) =>
      writeChunks written
      runLive machine (machine.startMain (State.initial machine.program))
