import TieredVM.Image.Reader
/-!
Reading container files. A file is accepted if its fields are complete and in range and the ids of
each table are exactly the numbers below its length; code is not looked at.
-/
set_option autoImplicit false

namespace TieredVM

/-- One entry of a function table of `count` entries, of which some have the ids `taken`. -/
def FunctionEntry.read (count : Nat) (taken : List Nat) : Reader FunctionEntry := do
  let name ← Reader.name
  let id ← Reader.freshId count taken .functionIdOutOfRange .duplicateFunction
  let argCount ← Reader.size .argCount
  let codeSize ← Reader.size .codeSize
  let code ← Reader.take codeSize
  return { name, id, argCount, code := code.toArray }

def FunctionEntry.readTable (count : Nat) : Reader (List FunctionEntry) :=
  Reader.entries (read count) (·.id) count []

def StringEntry.read (count : Nat) (taken : List Nat) : Reader StringEntry := do
  let id ← Reader.freshId count taken .stringIdOutOfRange .duplicateString
  let length ← Reader.size .stringLength
  let bytes ← Reader.take length
  return { id, bytes }

def StringEntry.readTable (count : Nat) : Reader (List StringEntry) :=
  Reader.entries (read count) (·.id) count []

namespace Image

def read : Reader Image := do
  Reader.eyecatcher
  let name ← Reader.name
  let functionCount ← Reader.byte
  if functionCount.toNat > maxFunctions then
    Reader.fail (.tooManyFunctions functionCount)
  else
    let functions ← FunctionEntry.readTable functionCount.toNat
    let stringCount ← Reader.size .stringCount
    let strings ← StringEntry.readTable stringCount
    Reader.eyecatcher
    return { name, functions, strings }

def decode (file : List UInt8) : Except LoadError Image := do
  let (image, cursor) ← read.run ⟨0, file⟩
  if cursor.rest.isEmpty then
    return image
  else
    throw (.trailingBytes cursor.rest.length)

end Image
end TieredVM
