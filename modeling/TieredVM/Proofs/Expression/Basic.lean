import TieredVM.Machine.Fault
import TieredVM.Proofs.Instruction.Listing
import TieredVM.Proofs.Verify.Accepted
/-!
Expressions over the arguments of a function: the code that evaluates them, operands from left to
right and then the operator, the stack that this takes, and the value that it comes to.
-/
set_option autoImplicit false

namespace TieredVM

/-- The result of exact arithmetic on integers, with the low 64 bits kept. -/
def BinaryOp.denote (op : BinaryOp) (left right : Int64) : Option Int64 :=
  match op with
  | add => some (.ofInt (left.toInt + right.toInt))
  | sub => some (.ofInt (left.toInt - right.toInt))
  | mul => some (.ofInt (left.toInt * right.toInt))
  | div => if right.toInt = 0 then none else some (.ofInt (left.toInt.tdiv right.toInt))
  | mod => if right.toInt = 0 then none else some (.ofInt (left.toInt.tmod right.toInt))

theorem BinaryOp.apply_eq_denote (op : BinaryOp) (left right : Int64) :
    op.apply left right = op.denote left right := by
  have hzero : right.toInt = 0 ↔ right = 0 := by
    rw [← Int64.toInt_inj, Int64.toInt_zero]
  cases op with
  | add => simp [apply, denote, Int64.ofInt_add]
  | sub => simp [apply, denote, Int64.ofInt_sub]
  | mul => simp [apply, denote, Int64.ofInt_mul]
  | div =>
    simp only [apply, denote, hzero]
    congr 2
    apply Int64.toInt_inj.1
    rw [Int64.toInt_div, Int64.toInt_ofInt]
  | mod =>
    simp only [apply, denote, hzero]
    congr 2
    rw [← Int64.toInt_mod, Int64.ofInt_toInt]

example : BinaryOp.div.denote (-7) 2 = some (-3) ∧ BinaryOp.mod.denote (-7) 2 = some (-1) := by
  decide

example : BinaryOp.div.denote Int64.minValue (-1) = some Int64.minValue := by decide

inductive Expr where
  | constant (value : Int64)
  | argument (index : Nat)
  | binary (op : BinaryOp) (left right : Expr)
  | call (function : Nat) (operands : List Expr)

structure ZeroDivision where
  function : String
  offset : Nat
  deriving DecidableEq, Repr

/-- What an evaluation comes to, unless calls are nested too deeply. -/
abbrev Evaluation := ExceptT ZeroDivision Option

namespace Expr

mutual

def emit : Expr → List Instruction
  | .constant value => [.pushConstant value]
  | .argument index => [.pushArg (Word.ofIndex index)]
  | .binary op left right => left.emit ++ right.emit ++ [.binary op]
  | .call function operands =>
    emitAll operands ++ [.call (Word.ofIndex function) (Word.ofIndex operands.length)]

def emitAll : List Expr → List Instruction
  | [] => []
  | operand :: operands => operand.emit ++ emitAll operands

end

mutual

def depth : Expr → Nat
  | .constant _ | .argument _ => 1
  | .binary _ left right => max left.depth (1 + right.depth)
  | .call _ operands => max 1 (depthAbove 0 operands)

def depthAbove (n : Nat) : List Expr → Nat
  | [] => 0
  | operand :: operands => max (n + operand.depth) (depthAbove (n + 1) operands)

end

def code (e : Expr) : Array UInt8 :=
  ((e.emit ++ [Instruction.ret]).flatMap Instruction.encode).toArray

def toFunction (e : Expr) (entry : FunctionEntry) : Function where
  name := entry.name
  id := entry.id
  argCount := entry.argCount
  localCount := 0
  maxStackDepth := e.depth
  code := entry.code

def size (e : Expr) : Nat := (e.emit.flatMap Instruction.encode).length

mutual

/-- Evaluates an expression whose code stands at an offset, operands from left to right and before
the calls for which they are. -/
def eval (call : Nat → List Int64 → Evaluation Int64) (function : String) (args : List Int64) :
    Expr → Nat → Evaluation Int64
  | .constant value, _ => pure value
  | .argument index, _ => pure (args.getD index 0)
  | .binary op left right, offset => do
    let a ← left.eval call function args offset
    let b ← right.eval call function args (offset + left.size)
    match op.denote a b with
    | none => throw ⟨function, offset + left.size + right.size⟩
    | some value => pure value
  | .call callee operands, offset => do
    let values ← evalAll call function args operands offset
    call callee values

def evalAll (call : Nat → List Int64 → Evaluation Int64) (function : String) (args : List Int64) :
    List Expr → Nat → Evaluation (List Int64)
  | [], _ => pure []
  | operand :: operands, offset => do
    let value ← operand.eval call function args offset
    let values ← evalAll call function args operands (offset + operand.size)
    pure (value :: values)

end

inductive Scoped (arity? : Nat → Option Nat) (argCount : Nat) : Expr → Prop
  | constant (value : Int64) : Scoped arity? argCount (.constant value)
  | argument {index : Nat} : index < argCount → index < 2 ^ 63 →
    Scoped arity? argCount (.argument index)
  | binary (op : BinaryOp) {left right : Expr} : Scoped arity? argCount left →
    Scoped arity? argCount right → Scoped arity? argCount (.binary op left right)
  | call {function : Nat} {operands : List Expr} : arity? function = some operands.length →
    function < 2 ^ 63 → operands.length < 2 ^ 63 →
    (∀ operand ∈ operands, Scoped arity? argCount operand) →
    Scoped arity? argCount (.call function operands)

theorem emitAll_eq_flatMap (operands : List Expr) : emitAll operands = operands.flatMap emit := by
  induction operands with
  | nil => rfl
  | cons operand operands ih => simp [emitAll, ih]

theorem depth_pos (e : Expr) : 0 < e.depth := by
  cases e with
  | binary op left right => simp only [depth]; omega
  | call function operands => simp only [depth]; omega
  | _ => simp [depth]

theorem depthAbove_cons (n : Nat) (operand : Expr) (operands : List Expr) :
    depthAbove n (operand :: operands) = max (n + operand.depth) (depthAbove (n + 1) operands) :=
  rfl

theorem depthAbove_add (n k : Nat) {operands : List Expr} (hne : operands ≠ []) :
    depthAbove (n + k) operands = n + depthAbove k operands := by
  induction operands generalizing k with
  | nil => exact absurd rfl hne
  | cons operand operands ih =>
    have hpos := operand.depth_pos
    rw [depthAbove_cons, depthAbove_cons k, Nat.add_assoc n k 1]
    cases operands with
    | nil =>
      simp only [depthAbove]
      omega
    | cons second rest =>
      rw [ih (k + 1) (by simp)]
      omega

/-- Counted from the bottom of the stack, operands and the result of their call need as much as the
call above the values that were there before. -/
theorem max_depthAbove (n : Nat) (operands : List Expr) :
    max (depthAbove n operands) (n + 1) = n + max 1 (depthAbove 0 operands) := by
  cases operands with
  | nil => simp [depthAbove]
  | cons operand operands =>
    have h := depthAbove_add n 0 (List.cons_ne_nil operand operands)
    rw [Nat.add_zero] at h
    omega

end Expr

def ZeroDivision.outcome : Except ZeroDivision Int64 → Outcome
  | .ok value => .ok value
  | .error zero => .error (.fault (.divisionByZero zero.function zero.offset))

namespace Image

/-- The ids of the functions number them, and their code evaluates the given expressions. -/
structure Expresses (image : Image) (bodies : Nat → Expr) : Prop where
  ids : (image.functions.map (·.id)).Perm (List.range image.functions.length)
  code : ∀ entry ∈ image.functions, entry.code = (bodies entry.id).code
  inScope : ∀ entry ∈ image.functions,
    (bodies entry.id).Scoped (fun id => (image.function? id).map (·.argCount)) entry.argCount

/-- Evaluates a call of a function, with less than `nesting` calls inside each other within it. -/
def evaluate (image : Image) (bodies : Nat → Expr) : Nat → Nat → List Int64 → Evaluation Int64
  | 0, _, _ => ExceptT.mk none
  | nesting + 1, id, args =>
    match image.function? id with
    | none => ExceptT.mk none
    | some entry => (bodies id).eval (evaluate image bodies nesting) entry.name args 0

end Image
end TieredVM
