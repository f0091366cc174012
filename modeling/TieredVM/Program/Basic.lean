import TieredVM.Image.Basic
set_option autoImplicit false

namespace TieredVM

structure Function where
  name : String
  id : Nat
  argCount : Nat
  /-- One more than the highest local in use, or zero. -/
  localCount : Nat
  maxStackDepth : Nat
  code : Array UInt8
  deriving DecidableEq, Repr

def Function.frameSlots (function : Function) : Nat :=
  function.maxStackDepth + function.localCount

def Function.toEntry (function : Function) : FunctionEntry :=
  { name := function.name, id := function.id, argCount := function.argCount, code := function.code }

structure Program where
  name : String
  functions : Array Function
  strings : Array (List UInt8)
  deriving DecidableEq, Repr

namespace Program

def function? (program : Program) (id : Nat) : Option Function := program.functions[id]?

def string? (program : Program) (id : Nat) : Option (List UInt8) := program.strings[id]?

def findFunction? (program : Program) (name : String) : Option Function :=
  program.functions.find? (·.name == name)

/-- Each function is listed under its own id. -/
def Dense (program : Program) : Prop :=
  ∀ (id : Nat) (function : Function), program.function? id = some function → function.id = id

def toImage (program : Program) : Image :=
  { name := program.name
    functions := program.functions.toList.map Function.toEntry
    strings := program.strings.toList.mapIdx fun id bytes => { id, bytes } }

end Program
end TieredVM
