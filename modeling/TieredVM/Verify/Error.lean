import TieredVM.Opcode
set_option autoImplicit false

namespace TieredVM

/-- What is wrong in one function, most often with the instruction at an offset of its code. -/
inductive Defect where
  | stackMismatch (offset expected found : Nat)
  | unreachable (offset : Nat)
  | returnDepth (offset depth : Nat)
  | stackUnderflow (offset : Nat)
  | unknownOpcode (offset : Nat) (byte : UInt8)
  | truncated (offset : Nat)
  | invalidJumpTarget (offset : Nat) (target : Int64)
  | fallsOffEnd
  | negativeOperand (offset : Nat) (value : Int64)
  | tooManyLocals (offset : Nat) (index : Int64)
  | unknownFunction (offset : Nat) (id : Int64)
  | argCountMismatch (offset : Nat) (callee : String) (passed : Int64) (declared : Nat)
  | unknownString (offset : Nat) (id : Int64)
  | argIndexOutOfRange (offset : Nat) (index : Int64) (argCount : Nat)
  deriving DecidableEq, Repr

structure VerifyError where
  function : String
  defect : Defect
  deriving DecidableEq, Repr

def Defect.messageIn (function : String) : Defect → String
  | stackMismatch offset expected found =>
    s!"stack depth mismatch in {function} at offset {offset}: expected {expected}, found {found}"
  | unreachable offset => s!"unreachable instruction in {function} at offset {offset}"
  | returnDepth offset depth =>
    s!"RET in {function} at offset {offset} with stack depth {depth} (expected 1)"
  | stackUnderflow offset => s!"stack underflow in {function} at offset {offset}"
  | unknownOpcode offset byte =>
    s!"{Opcode.unknownMessage byte} in {function} at offset {offset}"
  | truncated offset => s!"truncated instruction in {function} at offset {offset}"
  | invalidJumpTarget offset target =>
    s!"invalid jump target {target} in {function} at offset {offset}"
  | fallsOffEnd => s!"execution falls off the end of {function}"
  | negativeOperand offset value => s!"negative operand {value} in {function} at offset {offset}"
  | tooManyLocals offset index =>
    s!"local index {index} in {function} at offset {offset} exceeds the limit"
  | unknownFunction offset id => s!"call to unknown function {id} in {function} at offset {offset}"
  | argCountMismatch offset callee passed declared =>
    s!"call to {callee} in {function} at offset {offset} passes {passed} arguments, " ++
      s!"callee declares {declared}"
  | unknownString offset id => s!"unknown string {id} in {function} at offset {offset}"
  | argIndexOutOfRange offset index argCount =>
    s!"argument index {index} in {function} at offset {offset} out of range (argCount {argCount})"

def VerifyError.message (error : VerifyError) : String := error.defect.messageIn error.function

end TieredVM
