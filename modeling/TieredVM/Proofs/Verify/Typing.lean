import Mathlib.Data.List.Basic
import Mathlib.Tactic.Common
import TieredVM.Instruction.Listing
import TieredVM.Verify.StackDepth
import TieredVM.Proofs.Instruction.Listing
/-!
What it means for a function's code to be typed: the code is a row of instructions that never runs
out, its jumps lead to instructions, and there is a depth of the operand stack before every
instruction on which all ways of reaching it agree.
-/
set_option autoImplicit false

namespace TieredVM

namespace Instruction

def pops : Instruction → Nat
  | .nop | .pushConstant _ | .pushArg _ | .pushLocal _ | .jump _ | .printString _ | .currentTime
  | .halt => 0
  | .pop | .popLocal _ | .dup | .printInt64 | .ret => 1
  | .binary _ | .branch _ _ => 2
  | .call _ args => args.toInt.toNat

def pushes : Instruction → Nat
  | .nop | .pop | .popLocal _ | .jump _ | .branch _ _ | .ret | .printString _ | .printInt64
  | .halt => 0
  | .pushConstant _ | .pushArg _ | .pushLocal _ | .binary _ | .call _ _ | .currentTime => 1
  | .dup => 2

def after (instr : Instruction) (depth : Nat) : Nat := depth - instr.pops + instr.pushes

def local? : Instruction → Option Int64
  | .pushLocal slot | .popLocal slot => some slot
  | _ => none

def localsUsed (instr : Instruction) : Nat :=
  match instr.local? with
  | none => 0
  | some slot => slot.toInt.toNat + 1

/-- Arguments, locals and argument counts are numbers that the machine can use. -/
def InRange : Instruction → Prop
  | .pushArg index => 0 ≤ index.toInt
  | .pushLocal slot | .popLocal slot => 0 ≤ slot.toInt ∧ slot.toInt ≤ 65535
  | .call _ args => 0 ≤ args.toInt
  | _ => True

theorem InRange.of_local? {instr : Instruction} (h : instr.InRange) {slot : Int64}
    (hs : instr.local? = some slot) : 0 ≤ slot.toInt ∧ slot.toInt ≤ 65535 := by
  cases instr <;> simp only [local?, Option.some.injEq, reduceCtorEq] at hs
  all_goals
    subst hs
    exact h

theorem localsUsed_le_iff {instr : Instruction} (h : instr.InRange) (n : Nat) :
    instr.localsUsed ≤ n ↔ ∀ slot, instr.local? = some slot → slot.toInt < n := by
  unfold localsUsed
  cases hs : instr.local? with
  | none => simp
  | some slot =>
    have hr := h.of_local? hs
    simp only [Option.some.injEq, forall_eq']
    omega

theorem isTerminal_opcode (instr : Instruction) :
    instr.opcode.isTerminal = true ↔
      (∃ target, instr = .jump target) ∨ instr = .ret ∨ instr = .halt := by
  cases instr with
  | binary op => cases op <;> simp [opcode, BinaryOp.opcode, Opcode.isTerminal]
  | branch condition target =>
    cases condition <;> simp [opcode, Condition.opcode, Opcode.isTerminal]
  | _ => simp [opcode, Opcode.isTerminal]

end Instruction

namespace StackDepth
open Listing

/-- Code that is a row of instructions with an end and with targets for its jumps. What follows an
instruction that control never leaves downwards is reached by a jump from further up. -/
structure WellFormed (code : Array UInt8) (instrs : List Instruction) : Prop where
  encoded : code.toList = instrs.flatMap Instruction.encode
  closed : ∃ last, instrs.getLast? = some last ∧ last.opcode.isTerminal = true
  targets : ∀ offset instr target, (offset, instr) ∈ placed instrs →
    instr.jumpTarget? = some target →
    ∃ place, Word.toIndex? target = some place ∧ place ∈ starts instrs
  operands : ∀ instr ∈ instrs, instr.InRange
  entered : ∀ offset instr, (offset, instr) ∈ placed instrs → instr.opcode.isTerminal = true →
    offset + instr.encodedLength ∈ starts instrs →
    ∃ source jump target, (source, jump) ∈ placed instrs ∧ source < offset + instr.encodedLength ∧
      jump.jumpTarget? = some target ∧
      Word.toIndex? target = some (offset + instr.encodedLength)

/-- A depth before every instruction that fits what the instructions pop and push. -/
structure Typing (instrs : List Instruction) (depth : Nat → Nat) : Prop where
  first : depth 0 = 0
  popped : ∀ offset instr, (offset, instr) ∈ placed instrs → instr.pops ≤ depth offset
  returned : ∀ offset, (offset, .ret) ∈ placed instrs → depth offset = 1
  flows : ∀ offset instr, (offset, instr) ∈ placed instrs → instr.opcode.isTerminal = false →
    depth (offset + instr.encodedLength) = instr.after (depth offset)
  jumps : ∀ offset instr target place, (offset, instr) ∈ placed instrs →
    instr.jumpTarget? = some target → Word.toIndex? target = some place →
    depth place = instr.after (depth offset)

end StackDepth

/-- A summary holds the depth before every instruction and nothing else, the greatest of these
depths, and one more than the highest local in use. -/
structure StackSummary.Describes (summary : StackSummary) (instrs : List Instruction)
    (depth : Nat → Nat) : Prop where
  depths : ∀ offset n, summary.depths[offset]? = some n ↔
    offset ∈ Listing.starts instrs ∧ n = depth offset
  depth_le : ∀ offset ∈ Listing.starts instrs, depth offset ≤ summary.maxStackDepth
  depth_eq : ∃ offset ∈ Listing.starts instrs, depth offset = summary.maxStackDepth
  local_lt : ∀ instr ∈ instrs, ∀ slot, instr.local? = some slot → slot.toInt < summary.localCount
  local_eq : summary.localCount = 0 ∨
    ∃ instr ∈ instrs, ∃ slot, instr.local? = some slot ∧ slot.toInt + 1 = summary.localCount

end TieredVM
