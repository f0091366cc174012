import TieredVM.Machine.Describe
set_option autoImplicit false

namespace TieredVM

mutual

inductive Reply where
  | done
  | run (outcome : Outcome)
  | call (outcome : Outcome)
  | compileError (error : CompileError)
  | fault (fault : Fault)
  | callee (callee : Callee)
  | frame (onHeap : Bool) (args : Array Int64) (chain : List FrameLink) (body : List Report)
  | slot (slot : Option TierSlot)
  | text (text : String)
  | time (time : Int64)
  | refused (message : String)

/-- The answer to a command, with the events since the report before, and the state after it. -/
inductive Report where
  | mk (reply : Reply) (events : List Event) (state : State)

end

end TieredVM
