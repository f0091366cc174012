import TieredVM.Instruction.Basic
set_option autoImplicit false

namespace TieredVM

inductive DecodeError where
  | unknownOpcode (offset : Nat) (byte : UInt8)
  | truncated (offset : Nat) (opcode : Opcode)
  deriving DecidableEq, Repr

namespace DecodeError

def offset : DecodeError → Nat
  | unknownOpcode offset _ | truncated offset _ => offset

def message : DecodeError → String
  | unknownOpcode offset byte => s!"{Opcode.unknownMessage byte} at offset {offset}"
  | truncated offset opcode => s!"truncated {opcode.mnemonic} at offset {offset}"

end DecodeError

def operandWord? (code : Array UInt8) (offset index : Nat) : Option Int64 :=
  let start := offset + (1 + index * 8)
  if start + 8 ≤ code.size then
    some (Word.ofBytes (code.extract start (start + 8)).toList)
  else
    none

/-- What no check has caught; it ends the whole program. -/
inductive Panic where
  | overflow
  deriving DecidableEq, Repr

/-- The operand for any number that is a machine word. Nothing checks that the distance from the
opcode is one, too. -/
def operand? (code : Array UInt8) (offset : Nat) (index : UInt64) : Except Panic (Option Int64) :=
  if 1 + index.toNat * 8 < UInt64.size then
    .ok (operandWord? code offset index.toNat)
  else
    .error .overflow

namespace Instruction

/-- The instruction at an offset. Reading past the end is an incomplete `NOP`. -/
def decode (code : Array UInt8) (offset : Nat) : Except DecodeError Instruction :=
  match code[offset]? with
  | none => .error (.truncated offset .nop)
  | some byte =>
    match Opcode.ofByte? byte with
    | none => .error (.unknownOpcode offset byte)
    | some op =>
      match ofWords? op (operandWord? code offset) with
      | none => .error (.truncated offset op)
      | some instr => .ok instr

end Instruction
end TieredVM
