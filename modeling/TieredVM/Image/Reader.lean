import TieredVM.Image.Basic
import TieredVM.Word
set_option autoImplicit false

namespace TieredVM

inductive SizeField where
  | argCount
  | codeSize
  | stringCount
  | stringLength
  deriving DecidableEq, Repr

def SizeField.name : SizeField → String
  | argCount => "argCount"
  | codeSize => "codeSize"
  | stringCount => "stringCount"
  | stringLength => "string length"

/-- Why a file is no container. Offsets count bytes from the start of the file. -/
inductive LoadError where
  | badEyecatcher (offset : Nat)
  | truncated (offset needed : Nat)
  | nameTooLong (offset : Nat) (length : UInt8)
  | invalidName (offset : Nat)
  | tooManyFunctions (count : UInt8)
  | negativeField (offset : Nat) (field : SizeField) (value : Int64)
  | functionIdOutOfRange (offset : Nat) (id : Int64) (count : Nat)
  | duplicateFunction (offset id : Nat)
  | stringIdOutOfRange (offset : Nat) (id : Int64) (count : Nat)
  | duplicateString (offset id : Nat)
  | trailingBytes (count : Nat)
  deriving DecidableEq, Repr

def LoadError.message : LoadError → String
  | badEyecatcher offset => s!"bad eyecatcher at byte {offset}: expected \"ELLE\""
  | truncated offset needed =>
    s!"unexpected end of input at byte {offset}: {needed} more bytes needed"
  | nameTooLong offset length => s!"name length {length} at byte {offset} exceeds 127"
  | invalidName offset => s!"name at byte {offset} is not valid UTF-8"
  | tooManyFunctions count => s!"function count {count} exceeds 127"
  | negativeField offset field value => s!"negative {field.name} {value} at byte {offset}"
  | functionIdOutOfRange offset id count =>
    s!"function id {id} at byte {offset} out of range (function count {count})"
  | duplicateFunction offset id => s!"duplicate function id {id} at byte {offset}"
  | stringIdOutOfRange offset id count =>
    s!"string id {id} at byte {offset} out of range (string count {count})"
  | duplicateString offset id => s!"duplicate string id {id} at byte {offset}"
  | trailingBytes count => s!"{count} trailing bytes after closing eyecatcher"

structure Cursor where
  offset : Nat
  rest : List UInt8
  deriving DecidableEq, Repr

abbrev Reader := StateT Cursor (Except LoadError)

namespace Reader

def offset : Reader Nat := fun cursor => .ok (cursor.offset, cursor)

def fail {α : Type} (error : LoadError) : Reader α := fun _ => .error error

def take (n : Nat) : Reader (List UInt8) := fun cursor =>
  let (taken, rest) := cursor.rest.splitAt n
  if taken.length = n then
    .ok (taken, ⟨cursor.offset + n, rest⟩)
  else
    .error (.truncated cursor.offset (n - taken.length))

def byte : Reader UInt8 := fun cursor =>
  match cursor.rest with
  | [] => .error (.truncated cursor.offset 1)
  | byte :: rest => .ok (byte, ⟨cursor.offset + 1, rest⟩)

def word : Reader Int64 := do
  let bytes ← take 8
  return Word.ofBytes bytes

def size (field : SizeField) : Reader Nat := do
  let start ← offset
  let value ← word
  match Word.toIndex? value with
  | none => fail (.negativeField start field value)
  | some n => return n

def name : Reader String := do
  let start ← offset
  let length ← byte
  if length.toNat > Image.maxNameLength then
    fail (.nameTooLong start length)
  else
    let bytes ← take length.toNat
    match String.fromUTF8? ⟨bytes.toArray⟩ with
    | none => fail (.invalidName start)
    | some text => return text

def eyecatcher : Reader Unit := do
  let start ← offset
  let bytes ← take Image.eyecatcher.length
  if bytes = Image.eyecatcher then
    return ()
  else
    fail (.badEyecatcher start)

def freshId (count : Nat) (taken : List Nat) (outOfRange : Nat → Int64 → Nat → LoadError)
    (duplicate : Nat → Nat → LoadError) : Reader Nat := do
  let start ← offset
  let value ← word
  match (Word.toIndex? value).filter (· < count) with
  | none => fail (outOfRange start value count)
  | some id => if id ∈ taken then fail (duplicate start id) else return id

/-- The last `remaining` entries of a table; each is read with the ids of those before it. -/
def entries {α : Type} (entry : List Nat → Reader α) (id : α → Nat) :
    (remaining : Nat) → (taken : List Nat) → Reader (List α)
  | 0, _ => return []
  | remaining + 1, taken => do
    let first ← entry taken
    let rest ← entries entry id remaining (id first :: taken)
    return first :: rest

end Reader
end TieredVM
