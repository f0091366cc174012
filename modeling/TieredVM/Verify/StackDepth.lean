import TieredVM.Instruction.Listing
import TieredVM.Verify.Error
import Std.Data.TreeMap
/-!
The depth of the operand stack before every instruction, found by one walk through the code from
its start. After an instruction that never continues with the next one the depth is known only
where an earlier jump has led. All ways of reaching an instruction must agree on its depth.
-/
set_option autoImplicit false

namespace TieredVM

structure StackSummary where
  maxStackDepth : Nat
  localCount : Nat
  depths : Std.TreeMap Nat Nat

namespace StackDepth

def maxLocals : Nat := 65536

def index (offset : Nat) (value : Int64) : Except Defect Nat :=
  match Word.toIndex? value with
  | none => .error (.negativeOperand offset value)
  | some n => .ok n

def localSlot (offset : Nat) (index : Int64) : Except Defect Nat :=
  match (Word.toIndex? index).filter (· < maxLocals) with
  | none => .error (.tooManyLocals offset index)
  | some slot => .ok slot

def stackEffect (offset : Nat) : Instruction → Except Defect (Nat × Nat)
  | .nop | .jump _ | .printString _ | .halt => .ok (0, 0)
  | .pushConstant _ | .pushArg _ | .pushLocal _ | .currentTime => .ok (0, 1)
  | .pop | .popLocal _ | .printInt64 | .ret => .ok (1, 0)
  | .dup => .ok (1, 2)
  | .binary _ => .ok (2, 1)
  | .branch _ _ => .ok (2, 0)
  | .call _ args => do return (← index offset args, 1)

/-- The depth before an instruction, from the depth that control brings along, if it comes from the
instruction before, and the depth that earlier jumps have recorded. -/
def arrive (offset : Nat) (flow recorded : Option Nat) : Except Defect Nat :=
  match flow, recorded with
  | none, none => .error (.unreachable offset)
  | none, some depth | some depth, none => .ok depth
  | some found, some expected =>
    if found = expected then .ok found else .error (.stackMismatch offset expected found)

def depthAfter (offset : Nat) (instr : Instruction) (depth : Nat) : Except Defect Nat := do
  if instr = .ret ∧ depth ≠ 1 then
    throw (.returnDepth offset depth)
  let (pops, pushes) ← stackEffect offset instr
  if depth < pops then
    throw (.stackUnderflow offset)
  return depth - pops + pushes

def localsNeeded (offset : Nat) : Instruction → Except Defect Nat
  | .pushArg arg => do
    let _ ← index offset arg
    return 0
  | .pushLocal slot | .popLocal slot => do
    let _ ← index offset slot
    return (← localSlot offset slot) + 1
  | _ => .ok 0

def defectOf : DecodeError → Defect
  | .unknownOpcode offset byte => .unknownOpcode offset byte
  | .truncated offset _ => .truncated offset

structure Walk where
  depths : Std.TreeMap Nat Nat := ∅
  /-- The jumps that led ahead, with their targets, the latest first. -/
  ahead : List (Nat × Nat) := []
  maxStackDepth : Nat := 0
  localCount : Nat := 0

namespace Walk

def jump (walk : Walk) (size offset : Nat) (target : Int64) (depth : Nat) :
    Except Defect Walk :=
  match (Word.toIndex? target).filter (· < size) with
  | none => .error (.invalidJumpTarget offset target)
  | some place =>
    let ahead := if offset < place then (offset, place) :: walk.ahead else walk.ahead
    match walk.depths[place]? with
    | some expected =>
      if expected = depth then .ok { walk with ahead }
      else .error (.stackMismatch place expected depth)
    | none =>
      -- Every instruction up to here has a depth: the target lies inside one.
      if place ≤ offset then .error (.invalidJumpTarget offset target)
      else .ok { walk with ahead, depths := walk.depths.insert place depth }

def visit (walk : Walk) (size offset : Nat) (instr : Instruction) (depth : Nat) :
    Except Defect (Option Nat × Walk) := do
  let after ← depthAfter offset instr depth
  let needed ← localsNeeded offset instr
  let walk := { walk with
    maxStackDepth := max walk.maxStackDepth after
    localCount := max walk.localCount needed }
  let flow := if instr.opcode.isTerminal then none else some after
  match instr.jumpTarget? with
  | none => return (flow, walk)
  | some target => return (flow, ← walk.jump size offset target after)

/-- Walks through a listing. The flow is the depth that control brings along, if it does. -/
def through (size : Nat) : Listing → Option Nat → Walk → Except Defect Walk
  | .done, none, walk => .ok walk
  | .done, some _, _ => .error .fallsOffEnd
  | .bad error, flow, walk => do
    let _ ← arrive error.offset flow walk.depths[error.offset]?
    throw (defectOf error)
  | .item offset instr rest, flow, walk => do
    let depth ← arrive offset flow walk.depths[offset]?
    let walk := { walk with depths := walk.depths.insert offset depth }
    let (flow, walk) ← walk.visit size offset instr depth
    through size rest flow walk

end Walk
end StackDepth

open StackDepth in
def simulate (code : Array UInt8) : Except Defect StackSummary := do
  let listing := Listing.ofCode code
  let walk ← Walk.through code.size listing (some 0) {}
  let starts := listing.offsets
  match walk.ahead.reverse.find? fun (_, place) => place ∉ starts with
  | some (offset, place) => throw (.invalidJumpTarget offset (Word.ofIndex place))
  | none =>
    return {
      maxStackDepth := walk.maxStackDepth
      localCount := walk.localCount
      depths := walk.depths }

end TieredVM
