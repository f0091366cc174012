import TieredVM.Text.Hex
set_option autoImplicit false

namespace TieredVM

inductive Opcode where
  | nop
  | pushConstant
  | pushArg
  | pushLocal
  | pop
  | popLocal
  | dup
  | add
  | sub
  | mul
  | div
  | mod
  | jmp
  | jmpe
  | jmpl
  | jmpg
  | call
  | ret
  | printString
  | printInt64
  | currentTime
  | halt
  deriving DecidableEq, Repr

namespace Opcode

def all : Array Opcode :=
  #[nop, pushConstant, pushArg, pushLocal, pop, popLocal, dup, add, sub, mul, div, mod,
    jmp, jmpe, jmpl, jmpg, call, ret, printString, printInt64, currentTime, halt]

def toByte : Opcode → UInt8
  | nop => 0
  | pushConstant => 1
  | pushArg => 2
  | pushLocal => 3
  | pop => 4
  | popLocal => 5
  | dup => 6
  | add => 7
  | sub => 8
  | mul => 9
  | div => 10
  | mod => 11
  | jmp => 12
  | jmpe => 13
  | jmpl => 14
  | jmpg => 15
  | call => 16
  | ret => 17
  | printString => 18
  | printInt64 => 19
  | currentTime => 20
  | halt => 21

def ofByte? (byte : UInt8) : Option Opcode :=
  all[byte.toNat]?

@[simp] theorem ofByte?_toByte (op : Opcode) : ofByte? op.toByte = some op := by
  cases op <;> rfl

theorem ofByte?_eq_none_iff {byte : UInt8} : ofByte? byte = none ↔ 22 ≤ byte.toNat :=
  Array.getElem?_eq_none_iff

theorem toByte_of_ofByte? {byte : UInt8} {op : Opcode} (h : ofByte? byte = some op) :
    op.toByte = byte := by
  have table : ∀ n : Fin 22, ∀ op, all[n.val]? = some op → op.toByte.toNat = n.val := by decide
  obtain ⟨hlt, _⟩ := Array.getElem?_eq_some_iff.1 h
  exact UInt8.toNat_inj.1 (table ⟨byte.toNat, hlt⟩ op h)

theorem ofByte?_eq_some_iff {byte : UInt8} {op : Opcode} :
    ofByte? byte = some op ↔ op.toByte = byte :=
  ⟨toByte_of_ofByte?, fun h => h ▸ ofByte?_toByte op⟩

def mnemonic : Opcode → String
  | nop => "NOP"
  | pushConstant => "PUSH_CONSTANT"
  | pushArg => "PUSH_ARG"
  | pushLocal => "PUSH_LOCAL"
  | pop => "POP"
  | popLocal => "POP_LOCAL"
  | dup => "DUP"
  | add => "ADD"
  | sub => "SUB"
  | mul => "MUL"
  | div => "DIV"
  | mod => "MOD"
  | jmp => "JMP"
  | jmpe => "JMPE"
  | jmpl => "JMPL"
  | jmpg => "JMPG"
  | call => "CALL"
  | ret => "RET"
  | printString => "PRINT_STRING"
  | printInt64 => "PRINT_INT64"
  | currentTime => "CURRENT_TIME"
  | halt => "HALT"

def ofMnemonic? (text : String) : Option Opcode :=
  all.find? (·.mnemonic == text)

@[simp] theorem ofMnemonic?_mnemonic (op : Opcode) : ofMnemonic? op.mnemonic = some op := by
  cases op <;> decide +kernel

def operandCount : Opcode → Nat
  | pushConstant | pushArg | pushLocal | popLocal | jmp | jmpe | jmpl | jmpg | printString => 1
  | call => 2
  | _ => 0

def encodedLength (op : Opcode) : Nat := 1 + 8 * op.operandCount

theorem encodedLength_pos (op : Opcode) : 0 < op.encodedLength :=
  Nat.lt_add_right _ Nat.one_pos

/-- Control never continues with the instruction after a terminal one. -/
def isTerminal : Opcode → Bool
  | jmp | ret | halt => true
  | _ => false

def isConditionalJump : Opcode → Bool
  | jmpe | jmpl | jmpg => true
  | _ => false

def unknownMessage (byte : UInt8) : String :=
  "unknown opcode " ++ Text.hexByte byte

end Opcode
end TieredVM
