import TieredVM.Opcode
/-!
The arithmetic and the comparisons of the machine, on 64-bit words: sums, differences and products
wrap around, a quotient is cut off toward zero, and a remainder has the sign of the dividend.
-/
set_option autoImplicit false

namespace TieredVM

inductive BinaryOp where
  | add
  | sub
  | mul
  | div
  | mod
  deriving DecidableEq, Repr

namespace BinaryOp

def all : List BinaryOp := [add, sub, mul, div, mod]

def opcode : BinaryOp → Opcode
  | add => .add
  | sub => .sub
  | mul => .mul
  | div => .div
  | mod => .mod

def ofOpcode? (op : Opcode) : Option BinaryOp :=
  all.find? (·.opcode == op)

/-- The result, unless the divisor of a quotient or remainder is zero. -/
def apply (op : BinaryOp) (left right : Int64) : Option Int64 :=
  match op with
  | add => some (left + right)
  | sub => some (left - right)
  | mul => some (left * right)
  | div => if right = 0 then none else some (left / right)
  | mod => if right = 0 then none else some (left % right)

theorem apply_eq_none_iff {op : BinaryOp} {left right : Int64} :
    op.apply left right = none ↔ (op = div ∨ op = mod) ∧ right = 0 := by
  cases op <;> simp [apply]

end BinaryOp

inductive Condition where
  | equal
  | less
  | greater
  deriving DecidableEq, Repr

namespace Condition

def all : List Condition := [equal, less, greater]

def opcode : Condition → Opcode
  | equal => .jmpe
  | less => .jmpl
  | greater => .jmpg

def ofOpcode? (op : Opcode) : Option Condition :=
  all.find? (·.opcode == op)

def holds (condition : Condition) (left right : Int64) : Bool :=
  match condition with
  | equal => left == right
  | less => left < right
  | greater => left > right

end Condition
end TieredVM
