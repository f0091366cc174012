import TieredVM.Arithmetic
import TieredVM.Word
set_option autoImplicit false

namespace TieredVM

inductive Instruction where
  | nop
  | pushConstant (value : Int64)
  | pushArg (index : Int64)
  | pushLocal (index : Int64)
  | pop
  | popLocal (index : Int64)
  | dup
  | binary (op : BinaryOp)
  | jump (target : Int64)
  | branch (condition : Condition) (target : Int64)
  | call (function args : Int64)
  | ret
  | printString (id : Int64)
  | printInt64
  | currentTime
  | halt
  deriving DecidableEq, Repr

namespace Instruction

def opcode : Instruction → Opcode
  | nop => .nop
  | pushConstant _ => .pushConstant
  | pushArg _ => .pushArg
  | pushLocal _ => .pushLocal
  | pop => .pop
  | popLocal _ => .popLocal
  | dup => .dup
  | binary op => op.opcode
  | jump _ => .jmp
  | branch condition _ => condition.opcode
  | call _ _ => .call
  | ret => .ret
  | printString _ => .printString
  | printInt64 => .printInt64
  | currentTime => .currentTime
  | halt => .halt

def operands : Instruction → List Int64
  | pushConstant word | pushArg word | pushLocal word | popLocal word | jump word
  | branch _ word | printString word => [word]
  | call function args => [function, args]
  | _ => []

theorem length_operands (instr : Instruction) :
    instr.operands.length = instr.opcode.operandCount := by
  cases instr with
  | binary op => cases op <;> rfl
  | branch condition target => cases condition <;> rfl
  | _ => rfl

/-- The instruction with an opcode whose operands are the given words, if there are enough. -/
def ofWords? (op : Opcode) (word : Nat → Option Int64) : Option Instruction :=
  match op with
  | .nop => some nop
  | .pushConstant => (word 0).map pushConstant
  | .pushArg => (word 0).map pushArg
  | .pushLocal => (word 0).map pushLocal
  | .pop => some pop
  | .popLocal => (word 0).map popLocal
  | .dup => some dup
  | .add => some (binary .add)
  | .sub => some (binary .sub)
  | .mul => some (binary .mul)
  | .div => some (binary .div)
  | .mod => some (binary .mod)
  | .jmp => (word 0).map jump
  | .jmpe => (word 0).map (branch .equal)
  | .jmpl => (word 0).map (branch .less)
  | .jmpg => (word 0).map (branch .greater)
  | .call => (word 0).bind fun function => (word 1).map (call function)
  | .ret => some ret
  | .printString => (word 0).map printString
  | .printInt64 => some printInt64
  | .currentTime => some currentTime
  | .halt => some halt

theorem ofWords?_opcode {instr : Instruction} {op : Opcode} {word : Nat → Option Int64}
    (h : ofWords? op word = some instr) : instr.opcode = op := by
  cases op <;> simp [ofWords?, Option.bind_eq_some_iff] at h <;>
    first
      | subst h; rfl
      | obtain ⟨_, _, rfl⟩ := h; rfl
      | obtain ⟨_, _, _, _, rfl⟩ := h; rfl

def encode (instr : Instruction) : List UInt8 :=
  instr.opcode.toByte :: instr.operands.flatMap Word.toBytes

def encodedLength (instr : Instruction) : Nat := instr.opcode.encodedLength

theorem encodedLength_pos (instr : Instruction) : 0 < instr.encodedLength :=
  instr.opcode.encodedLength_pos

theorem length_encode (instr : Instruction) : instr.encode.length = instr.encodedLength := by
  have h : ∀ words : List Int64, (words.flatMap Word.toBytes).length = 8 * words.length := by
    intro words
    induction words with
    | nil => rfl
    | cons word words ih => simp [List.flatMap_cons, ih]; omega
  rw [encode, List.length_cons, h, length_operands, encodedLength, Opcode.encodedLength]
  omega

def jumpTarget? : Instruction → Option Int64
  | jump target | branch _ target => some target
  | _ => none

end Instruction
end TieredVM
