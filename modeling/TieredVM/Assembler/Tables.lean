import TieredVM.Assembler.Error
import TieredVM.Image.Encode
/-!
Assembling a program. Functions get their ids in the order in which they are declared, and may get
their bodies later, so that bodies can call functions that follow; equal strings share one id.
-/
set_option autoImplicit false

namespace TieredVM

/-- A declared function; its body may still be missing. -/
structure Declaration where
  name : String
  argCount : Nat
  body : Option (Array UInt8)
  deriving DecidableEq, Repr

structure Tables where
  name : String
  functions : Array Declaration := #[]
  strings : Array (List UInt8) := #[]
  deriving DecidableEq, Repr

def BuildError.checkName (name : String) : Except BuildError Unit :=
  let length := (Text.bytes name).length
  if length ≤ Image.maxNameLength then .ok () else .error (.nameTooLong name length)

def Declaration.toEntry (declaration : Declaration) (id : Nat) :
    Except BuildError FunctionEntry := do
  BuildError.checkName declaration.name
  match declaration.body with
  | none => throw (.undefinedFunction declaration.name)
  | some code => return { name := declaration.name, id, argCount := declaration.argCount, code }

namespace Tables

def declare (tables : Tables) (declaration : Declaration) : Nat × Tables :=
  (tables.functions.size, { tables with functions := tables.functions.push declaration })

def define (tables : Tables) (id : Nat) (code : Array UInt8) : Except BuildError Tables :=
  match tables.functions[id]? with
  | none => .error (.undeclaredFunction id)
  | some declaration =>
    let defined := { declaration with body := some code }
    .ok { tables with functions := tables.functions.setIfInBounds id defined }

def intern (tables : Tables) (bytes : List UInt8) : Nat × Tables :=
  match tables.strings.idxOf? bytes with
  | some id => (id, tables)
  | none => (tables.strings.size, { tables with strings := tables.strings.push bytes })

/-- The image of the program, if it fits into a container and every function has a body. -/
def build (tables : Tables) : Except BuildError Image := do
  if tables.functions.size > Image.maxFunctions then
    throw (.tooManyFunctions tables.functions.size)
  BuildError.checkName tables.name
  let functions ← tables.functions.toList.zipIdx.mapM fun (declaration, id) =>
    declaration.toEntry id
  return {
    name := tables.name
    functions
    strings := tables.strings.toList.mapIdx fun id bytes => { id, bytes } }

end Tables
end TieredVM
