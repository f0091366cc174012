import TieredVM.Arithmetic
import TieredVM.Machine.Config
import TieredVM.Machine.Request
import TieredVM.Text.Decimal
/-!
Running code as it is, instruction by instruction. Each opcode has a handler; the two ways of
dispatch differ only in how it is found.
-/
set_option autoImplicit false

namespace TieredVM

abbrev Handler := Program → Site → Frame → Except Stop Request

namespace Handler

def nop : Handler := fun _ site frame =>
  .ok (.proceed (site.after .nop) frame)

def pushConstant : Handler := fun _ site frame => do
  let value ← site.word 0
  let frame ← site.grant (frame.push value)
  return .proceed (site.after .pushConstant) frame

def pushArg : Handler := fun _ site frame => do
  let index ← site.index 0
  let value ← site.grant (frame.arg index)
  let frame ← site.grant (frame.push value)
  return .proceed (site.after .pushArg) frame

def pushLocal : Handler := fun _ site frame => do
  let index ← site.index 0
  let value ← site.grant (frame.local? index)
  let frame ← site.grant (frame.push value)
  return .proceed (site.after .pushLocal) frame

def pop : Handler := fun _ site frame => do
  let (_, frame) ← site.grant frame.pop
  return .proceed (site.after .pop) frame

def popLocal : Handler := fun _ site frame => do
  let index ← site.index 0
  let (value, frame) ← site.grant frame.pop
  let frame ← site.grant (frame.setLocal index value)
  return .proceed (site.after .popLocal) frame

def dup : Handler := fun _ site frame => do
  let value ← site.grant frame.peek
  let frame ← site.grant (frame.push value)
  return .proceed (site.after .dup) frame

def binary (op : BinaryOp) : Handler := fun _ site frame => do
  let (right, frame) ← site.grant frame.pop
  let (left, frame) ← site.grant frame.pop
  match op.apply left right with
  | none => throw (.fault (.divisionByZero site.function.name site.offset))
  | some value =>
    let frame ← site.grant (frame.push value)
    return .proceed (site.after op.opcode) frame

def jump : Handler := fun _ site frame => do
  let target ← site.index 0
  return .proceed target frame

def branch (condition : Condition) : Handler := fun _ site frame => do
  let target ← site.index 0
  let (right, frame) ← site.grant frame.pop
  let (left, frame) ← site.grant frame.pop
  return .proceed (if condition.holds left right then target else site.after condition.opcode) frame

def call : Handler := fun _ site frame => do
  let function ← site.index 0
  let args ← site.index 1
  if args ≤ frame.depth then
    return .call function (frame.depth - args) (site.after .call) frame
  else
    throw site.corrupt

def ret : Handler := fun _ site frame => do
  let (value, _) ← site.grant frame.pop
  return .finish value

def printString : Handler := fun program site frame => do
  let id ← site.word 0
  match (Word.toIndex? id).bind program.string? with
  | none => throw (.fault (.unknownString site.function.name site.offset id))
  | some text => return .print text (site.after .printString) frame

def printInt64 : Handler := fun _ site frame => do
  let (value, frame) ← site.grant frame.pop
  return .print (Text.decimal value) (site.after .printInt64) frame

def currentTime : Handler := fun _ site frame =>
  .ok (.time (site.after .currentTime) frame)

def halt : Handler := fun _ _ _ => .error .halt

def ofOpcode : Opcode → Handler
  | .nop => nop
  | .pushConstant => pushConstant
  | .pushArg => pushArg
  | .pushLocal => pushLocal
  | .pop => pop
  | .popLocal => popLocal
  | .dup => dup
  | .add => binary .add
  | .sub => binary .sub
  | .mul => binary .mul
  | .div => binary .div
  | .mod => binary .mod
  | .jmp => jump
  | .jmpe => branch .equal
  | .jmpl => branch .less
  | .jmpg => branch .greater
  | .call => call
  | .ret => ret
  | .printString => printString
  | .printInt64 => printInt64
  | .currentTime => currentTime
  | .halt => halt

def table : Array Handler :=
  #[nop, pushConstant, pushArg, pushLocal, pop, popLocal, dup,
    binary .add, binary .sub, binary .mul, binary .div, binary .mod,
    jump, branch .equal, branch .less, branch .greater, call, ret,
    printString, printInt64, currentTime, halt]

end Handler

def Dispatch.handler? : Dispatch → UInt8 → Option Handler
  | switch, byte => (Opcode.ofByte? byte).map Handler.ofOpcode
  | table, byte => Handler.table[byte.toNat]?

def interpret (dispatch : Dispatch) : Handler := fun program site frame => do
  let byte ← site.require site.function.code[site.offset]?
  match dispatch.handler? byte with
  | none => throw (.fault (.unknownOpcode site.function.name site.offset byte))
  | some handler => handler program site frame

end TieredVM
