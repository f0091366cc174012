set_option autoImplicit false

namespace TieredVM

structure FunctionEntry where
  name : String
  id : Nat
  argCount : Nat
  code : Array UInt8
  deriving DecidableEq, Repr

structure StringEntry where
  id : Nat
  bytes : List UInt8
  deriving DecidableEq, Repr

structure Image where
  name : String
  functions : List FunctionEntry
  strings : List StringEntry
  deriving DecidableEq, Repr

namespace Image

def maxNameLength : Nat := 127

def maxFunctions : Nat := 127

def function? (image : Image) (id : Nat) : Option FunctionEntry :=
  image.functions.find? (·.id == id)

def eyecatcher : List UInt8 := [0x45, 0x4c, 0x4c, 0x45]

end Image
end TieredVM
