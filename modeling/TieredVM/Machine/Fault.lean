import TieredVM.Instruction.Decode
set_option autoImplicit false

namespace TieredVM

inductive Fault where
  | divisionByZero (function : String) (offset : Nat)
  | unknownOpcode (function : String) (offset : Nat) (byte : UInt8)
  /-- The stack, a local, an argument or the code was used outside its bounds. -/
  | corruptFrame (function : String) (offset : Nat)
  | unknownFunction (id : Nat)
  | unknownString (function : String) (offset : Nat) (id : Int64)
  | arityMismatch (function : String) (expected got : Nat)
  | missingMain
  | output (message : String)
  deriving DecidableEq, Repr

def Fault.message : Fault → String
  | divisionByZero function offset => s!"division by zero in {function} at offset {offset}"
  | unknownOpcode function offset byte =>
    s!"{Opcode.unknownMessage byte} in {function} at offset {offset}"
  | corruptFrame function offset => s!"frame access out of bounds in {function} at offset {offset}"
  | unknownFunction id => s!"unknown function {id}"
  | unknownString function offset id => s!"unknown string {id} in {function} at offset {offset}"
  | arityMismatch function expected got =>
    s!"{function} expects {expected} arguments, got {got}"
  | missingMain => "program has no function named main"
  | output message => s!"output failed: {message}"

inductive Stop where
  | halt
  | fault (fault : Fault)
  /-- No check has caught that a slot does not exist, or that a number is no machine word. -/
  | outOfRange
  deriving DecidableEq, Repr

abbrev Outcome := Except Stop Int64

instance Outcome.decidableEq : DecidableEq Outcome
  | .ok a, .ok b => decidable_of_iff (a = b) (by simp)
  | .error a, .error b => decidable_of_iff (a = b) (by simp)
  | .ok _, .error _ => isFalse (by simp)
  | .error _, .ok _ => isFalse (by simp)

inductive CompileError where
  | decode (function : String) (error : DecodeError)
  | badJumpTarget (function : String) (offset : Nat) (target : Int64)
  | negativeOperand (function : String) (offset : Nat) (value : Int64)
  | unsupported (function reason : String)
  deriving DecidableEq, Repr

def CompileError.message : CompileError → String
  | decode function error => s!"cannot decode {function}: {error.message}"
  | badJumpTarget function offset target =>
    s!"jump target {target} in {function} at offset {offset} is not an instruction"
  | negativeOperand function offset value =>
    s!"negative operand {value} in {function} at offset {offset}"
  | unsupported function reason => s!"{function} not supported: {reason}"

end TieredVM
