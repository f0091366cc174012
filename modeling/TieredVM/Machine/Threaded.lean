import TieredVM.Instruction.Listing
import TieredVM.Machine.Request
import TieredVM.Text.Decimal
/-!
Compiled functions. The code is decoded once into a list of operations without the no-ops, and the
targets of jumps become numbers of operations; a jump to a no-op leads to the operation after it.
-/
set_option autoImplicit false

namespace TieredVM

inductive Op where
  | pushConstant (value : Int64)
  | pushArg (index : Nat)
  | pushLocal (index : Nat)
  | pop
  | popLocal (index : Nat)
  | dup
  | binary (op : BinaryOp)
  | jump (target : Nat)
  | branch (condition : Condition) (target : Nat)
  | call (function args : Nat)
  | ret
  | printString (id : Nat)
  | printInt64
  | currentTime
  | halt
  deriving DecidableEq, Repr

structure OpAt where
  op : Op
  offset : Nat
  deriving DecidableEq, Repr

structure ThreadedCode where
  function : Function
  ops : Array OpAt
  deriving DecidableEq, Repr

namespace ThreadedCode

/-- The number of operations that come from the instructions before an offset, if an instruction
starts there. -/
def opNumber? : List (Nat × Instruction) → Nat → Option Nat
  | [], _ => none
  | (offset, instr) :: rest, target =>
    if offset = target then some 0
    else (opNumber? rest target).map fun n => if instr = .nop then n else n + 1

def index (function : Function) (offset : Nat) (value : Int64) : Except CompileError Nat :=
  match Word.toIndex? value with
  | none => .error (.negativeOperand function.name offset value)
  | some n => .ok n

def target (function : Function) (items : List (Nat × Instruction)) (offset : Nat)
    (value : Int64) : Except CompileError Nat :=
  match (Word.toIndex? value).bind (opNumber? items) with
  | none => .error (.badJumpTarget function.name offset value)
  | some n => .ok n

def translateInstr (program : Program) (function : Function) (items : List (Nat × Instruction))
    (offset : Nat) : Instruction → Except CompileError (Option Op)
  | .nop => .ok none
  | .pushConstant value => .ok (some (.pushConstant value))
  | .pushArg arg => do return some (.pushArg (← index function offset arg))
  | .pushLocal slot => do return some (.pushLocal (← index function offset slot))
  | .pop => .ok (some .pop)
  | .popLocal slot => do return some (.popLocal (← index function offset slot))
  | .dup => .ok (some .dup)
  | .binary op => .ok (some (.binary op))
  | .jump place => do return some (.jump (← target function items offset place))
  | .branch condition place => do
    return some (.branch condition (← target function items offset place))
  | .call callee args => do
    let callee ← index function offset callee
    match program.function? callee with
    | none => throw (.unsupported function.name s!"call to unknown function {callee}")
    | some _ => return some (.call callee (← index function offset args))
  | .ret => .ok (some .ret)
  | .printString id => do return some (.printString (← index function offset id))
  | .printInt64 => .ok (some .printInt64)
  | .currentTime => .ok (some .currentTime)
  | .halt => .ok (some .halt)

def translateItems (program : Program) (function : Function) (all : List (Nat × Instruction)) :
    List (Nat × Instruction) → Except CompileError (List OpAt)
  | [] => .ok []
  | (offset, instr) :: rest => do
    let op? ← translateInstr program function all offset instr
    let ops ← translateItems program function all rest
    match op? with
    | none => return ops
    | some op => return { op, offset } :: ops

def translate (program : Program) (function : Function) : Except CompileError ThreadedCode :=
  let listing := Listing.ofCode function.code
  match listing.error? with
  | some error => .error (.decode function.name error)
  | none => do
    let ops ← translateItems program function listing.items listing.items
    return { function, ops := ops.toArray }

/-- The byte offset of an operation; past the last one it is the end of the code. -/
def offset (code : ThreadedCode) (number : Nat) : Nat :=
  match code.ops[number]? with
  | none => code.function.code.size
  | some opAt => opAt.offset

def site (code : ThreadedCode) (number : Nat) : Site := ⟨code.function, code.offset number⟩

def runOp (program : Program) (site : Site) (next : Nat) (op : Op) (frame : Frame) :
    Except Stop Request :=
  match op with
  | .pushConstant value => do
    return .proceed next (← site.grant (frame.push value))
  | .pushArg index => do
    let value ← site.grant (frame.arg index)
    return .proceed next (← site.grant (frame.push value))
  | .pushLocal index => do
    let value ← site.grant (frame.local? index)
    return .proceed next (← site.grant (frame.push value))
  | .pop => do
    let (_, frame) ← site.grant frame.pop
    return .proceed next frame
  | .popLocal index => do
    let (value, frame) ← site.grant frame.pop
    return .proceed next (← site.grant (frame.setLocal index value))
  | .dup => do
    let value ← site.grant frame.peek
    return .proceed next (← site.grant (frame.push value))
  | .binary op => do
    let (right, frame) ← site.grant frame.pop
    let (left, frame) ← site.grant frame.pop
    match op.apply left right with
    | none => throw (.fault (.divisionByZero site.function.name site.offset))
    | some value => return .proceed next (← site.grant (frame.push value))
  | .jump target => .ok (.proceed target frame)
  | .branch condition target => do
    let (right, frame) ← site.grant frame.pop
    let (left, frame) ← site.grant frame.pop
    return .proceed (if condition.holds left right then target else next) frame
  | .call function args =>
    if args ≤ frame.depth then .ok (.call function (frame.depth - args) next frame)
    else .error site.corrupt
  | .ret => do
    let (value, _) ← site.grant frame.pop
    return .finish value
  | .printString id =>
    match program.string? id with
    | none => .error (.fault (.unknownString site.function.name site.offset (Word.ofIndex id)))
    | some text => .ok (.print text next frame)
  | .printInt64 => do
    let (value, frame) ← site.grant frame.pop
    return .print (Text.decimal value) next frame
  | .currentTime => .ok (.time next frame)
  | .halt => .error .halt

def step (code : ThreadedCode) (program : Program) (number : Nat) (frame : Frame) :
    Except Stop Request := do
  let site := code.site number
  let opAt ← site.require code.ops[number]?
  runOp program site (number + 1) opAt.op frame

end ThreadedCode
end TieredVM
