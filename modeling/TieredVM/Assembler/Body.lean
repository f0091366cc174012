import TieredVM.Assembler.Error
import TieredVM.Instruction.Basic
/-!
Assembling one function body. Instructions are written as they come. A jump to a label is written
with an operand of zeros, and where that operand stands is noted; a label gets its place by being
bound to the current offset, before or after the jumps that use it. `finish` then writes the places
over the operands.
-/
set_option autoImplicit false

namespace TieredVM

inductive JumpKind where
  | always
  | when (condition : Condition)
  deriving DecidableEq, Repr

namespace JumpKind

def opcode : JumpKind → Opcode
  | always => .jmp
  | when condition => condition.opcode

def instruction (kind : JumpKind) (target : Int64) : Instruction :=
  match kind with
  | always => .jump target
  | when condition => .branch condition target

theorem opcode_instruction (kind : JumpKind) (target : Int64) :
    (kind.instruction target).opcode = kind.opcode := by
  cases kind <;> rfl

end JumpKind

structure Hole where
  offset : Nat
  label : Nat
  deriving DecidableEq, Repr

structure Body where
  code : Array UInt8 := #[]
  places : Array (Option Nat) := #[]
  /-- The operands of the jumps to labels, in the order of the code. -/
  holes : Array Hole := #[]
  /-- The first label that was bound a second time. -/
  rebound : Option Nat := none
  deriving DecidableEq, Repr

namespace Body

def empty : Body := {}

def size (body : Body) : Nat := body.code.size

def newLabel (body : Body) : Nat × Body :=
  (body.places.size, { body with places := body.places.push none })

def place? (body : Body) (label : Nat) : Option Nat := body.places[label]?.join

/-- Gives a label the current offset as its place; a label keeps its first place. -/
def bind (body : Body) (label : Nat) : Body :=
  match body.place? label with
  | some _ => { body with rebound := body.rebound <|> some label }
  | none => { body with places := body.places.setIfInBounds label (some body.size) }

def emit (body : Body) (instr : Instruction) : Body :=
  { body with code := body.code ++ instr.encode }

def jump (body : Body) (kind : JumpKind) (label : Nat) : Body :=
  { body with
    code := body.code ++ kind.opcode.toByte :: List.replicate 8 0
    holes := body.holes.push { offset := body.size + 1, label } }

def overwrite (code : Array UInt8) (offset : Nat) : List UInt8 → Array UInt8
  | [] => code
  | byte :: rest => overwrite (code.setIfInBounds offset byte) (offset + 1) rest

/-- Writes the places of their labels over operands, until a label has none: that label, if there
is one, and the code as far as it was patched. -/
def patch (place? : Nat → Option Nat) (code : Array UInt8) : List Hole → Option Nat × Array UInt8
  | [] => (none, code)
  | hole :: rest =>
    match place? hole.label with
    | none => (some hole.label, code)
    | some place =>
      patch place? (overwrite code hole.offset (Word.toBytes (Word.ofIndex place))) rest

/-- The code of the body, and what is left to go on with: an empty body, or the same one, with some
operands written already, if a label has no place yet. -/
def finish (body : Body) : Except BuildError (List UInt8) × Body :=
  match body.rebound with
  | some label => (.error (.labelRebound label), empty)
  | none =>
    match patch body.place? body.code body.holes.toList with
    | (some label, code) => (.error (.unboundLabel label), { body with code })
    | (none, code) => (.ok code.toList, empty)

end Body
end TieredVM
