import TieredVM.Machine.Tiering
import TieredVM.Text.Quoted
set_option autoImplicit false

namespace TieredVM

def Text.describeRecord (name : String) (fields : List (String × String)) : String :=
  let body := String.intercalate ", " (fields.map fun (field, value) => s!"{field}: {value}")
  s!"{name} \x7b {body} \x7d"

def Dispatch.describe : Dispatch → String
  | switch => "Switch"
  | table => "Table"

def TierPolicy.describe : TierPolicy → String
  | interpretOnly => "InterpretOnly"
  | tiered threshold => Text.describeRecord "Tiered" [("threshold", toString threshold)]

def Config.describe (config : Config) : String :=
  Text.describeRecord "VmConfig" [
    ("dispatch", config.dispatch.describe),
    ("tiering", config.tiering.describe),
    ("verbose", toString config.verbose),
    ("trace", toString config.trace)]

def FrameLink.describe (link : FrameLink) : String :=
  Text.describeRecord "FrameLink" [
    ("function", toString link.function),
    ("heap", toString link.onHeap)]

def FrameStats.describe (stats : FrameStats) : String :=
  Text.describeRecord "FrameStats" [
    ("inline_frames", toString stats.inlineFrames),
    ("heap_allocations", toString stats.heapAllocations),
    ("heap_releases", toString stats.heapReleases)]

def TierSlot.describe (slot : TierSlot) : String :=
  Text.describeRecord "TierSlot" [
    ("invoked", toString slot.invoked),
    ("compiled", toString slot.entry.isSome),
    ("compile_attempts", toString slot.attempts),
    ("compile_failed", toString slot.failed)]

def Callee.describe : Callee → String
  | interpreted id => s!"Interpreted({id})"
  | compiled _ => "Compiled"

def Machine.describe (machine : Machine) (state : State) : String :=
  let chain := String.intercalate ", " (state.callChain.map FrameLink.describe)
  let body := String.intercalate ", " [
    s!"program: {Text.quote machine.program.name}",
    s!"config: {machine.config.describe}",
    s!"chain: [{chain}]",
    s!"stats: {state.stats.describe}",
    ".."]
  s!"Vm \x7b {body} \x7d"

end TieredVM
