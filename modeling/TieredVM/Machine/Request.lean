import TieredVM.Machine.Fault
import TieredVM.Machine.Frame
/-!
What one instruction does to the frame of its own call, and what it leaves to the machine. Places
in a function are byte offsets or numbers of compiled operations; which of the two is up to the one
who runs the function.
-/
set_option autoImplicit false

namespace TieredVM

/-- What is to happen after an instruction. Where the call goes on, `next` is the place. -/
inductive Request where
  | proceed (next : Nat) (frame : Frame)
  | print (text : List UInt8) (next : Nat) (frame : Frame)
  | time (next : Nat) (frame : Frame)
  /-- Call a function with the values above the lowest `base`, and put its result in their place. -/
  | call (function base : Nat) (next : Nat) (frame : Frame)
  | finish (value : Int64)
  deriving DecidableEq, Repr

structure Site where
  function : Function
  offset : Nat
  deriving DecidableEq, Repr

namespace Site

def corrupt (site : Site) : Stop := .fault (.corruptFrame site.function.name site.offset)

def require {α : Type} (site : Site) : Option α → Except Stop α
  | none => .error site.corrupt
  | some value => .ok value

def grant {α : Type} (site : Site) : Except Denial α → Except Stop α
  | .ok value => .ok value
  | .error .refused => .error site.corrupt
  | .error .outOfRange => .error .outOfRange

def word (site : Site) (index : UInt64) : Except Stop Int64 :=
  match operand? site.function.code site.offset index with
  | .error .overflow => .error .outOfRange
  | .ok word => site.require word

def index (site : Site) (index : UInt64) : Except Stop Nat := do
  site.require (Word.toIndex? (← site.word index))

def after (site : Site) (op : Opcode) : Nat := site.offset + op.encodedLength

end Site
end TieredVM
