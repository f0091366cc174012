import TieredVM.Program.Basic
/-!
The frame of one call: a single region of slots that holds the operand stack and, above its highest
place, the locals. Small frames always have eight slots; larger ones have exactly what they need,
on the heap.
-/
set_option autoImplicit false

namespace TieredVM

inductive Denial where
  /-- The frame's own bounds forbid it. -/
  | refused
  /-- The bounds allow it, but the region has no such slot. -/
  | outOfRange
  deriving DecidableEq, Repr

structure Frame where
  slots : Array Int64
  onHeap : Bool
  stackSlots : Nat
  localSlots : Nat
  depth : Nat
  args : Array Int64
  deriving DecidableEq, Repr

namespace Frame

def inlineSlots : Nat := 8

/-- The empty frame for a call of a function. Allocating its slots is taken to succeed, although no
machine grants 2 ^ 60 of them or more. -/
def enter (function : Function) (args : Array Int64) : Frame :=
  let onHeap := inlineSlots < function.frameSlots
  { slots := Array.replicate (if onHeap then function.frameSlots else inlineSlots) 0
    onHeap
    stackSlots := function.maxStackDepth
    localSlots := function.localCount
    depth := 0
    args }

def slice (frame : Frame) (start stop : Nat) : Except Denial (Array Int64) :=
  if start ≤ stop ∧ stop ≤ frame.slots.size then .ok (frame.slots.extract start stop)
  else .error .outOfRange

def read (frame : Frame) (slot : Nat) : Except Denial Int64 :=
  match frame.slots[slot]? with
  | none => .error .outOfRange
  | some value => .ok value

def write (frame : Frame) (slot : Nat) (value : Int64) : Except Denial Frame :=
  if h : slot < frame.slots.size then .ok { frame with slots := frame.slots.set slot value h }
  else .error .outOfRange

def stack (frame : Frame) : Except Denial (Array Int64) := frame.slice 0 frame.depth

def locals (frame : Frame) : Except Denial (Array Int64) :=
  frame.slice frame.stackSlots (frame.stackSlots + frame.localSlots)

def push (frame : Frame) (value : Int64) : Except Denial Frame :=
  if frame.depth < frame.stackSlots then do
    let depth := frame.depth
    let frame ← frame.write depth value
    return { frame with depth := depth + 1 }
  else
    .error .refused

def pop (frame : Frame) : Except Denial (Int64 × Frame) :=
  match frame.depth with
  | 0 => .error .refused
  | depth + 1 => do
    let value ← frame.read depth
    return (value, { frame with depth })

def peek (frame : Frame) : Except Denial Int64 :=
  match frame.depth with
  | 0 => .error .refused
  | depth + 1 => frame.read depth

def truncate (frame : Frame) (depth : Nat) : Frame :=
  { frame with depth := min frame.depth depth }

def above (frame : Frame) (base : Nat) : Except Denial (Array Int64) :=
  frame.slice base frame.depth

def arg (frame : Frame) (index : Nat) : Except Denial Int64 :=
  match frame.args[index]? with
  | none => .error .refused
  | some value => .ok value

def local? (frame : Frame) (index : Nat) : Except Denial Int64 :=
  if index < frame.localSlots then frame.read (frame.stackSlots + index) else .error .refused

def setLocal (frame : Frame) (index : Nat) (value : Int64) : Except Denial Frame :=
  if index < frame.localSlots then frame.write (frame.stackSlots + index) value
  else .error .refused

end Frame
end TieredVM
