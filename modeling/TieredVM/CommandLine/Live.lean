import TieredVM.CommandLine.Invocation
/-!
Runs that write out whatever happens at once, and for which the clock is read when the time is asked
for.
-/
set_option autoImplicit false

namespace TieredVM

def Progress.forget : Progress → Progress
  | .running execution =>
    .running { execution with state := { execution.state with journal := #[] } }
  | .ended outcome state => .ended outcome { state with journal := #[] }

structure Console (m : Type → Type) where
  readClock : m Int64
  write : List Chunk → m Unit

namespace Console

variable {m : Type → Type} [Monad m] (console : Console m)

def report (progress : Progress) : m Progress := do
  console.write (progress.state.journal.toList.filterMap Event.chunk?)
  return progress.forget

/-- Runs the next instruction, with a host that tells the time that it is now. -/
def step (machine : Machine) (execution : Execution) : m Progress := do
  let time ← if machine.asksTime execution then console.readClock else pure 0
  let host := Host.telling fun _ => time
  return machine.step { execution with state := { execution.state with host } }

def run (machine : Machine) : Nat → Progress → m Progress
  | 0, progress => console.report progress
  | fuel + 1, progress => do
    match ← console.report progress with
    | .ended outcome state => return .ended outcome state
    | .running execution => run machine fuel (← console.step machine execution)

end Console
end TieredVM
