/-!
Reading bytes as UTF-8 text without ever failing: every longest run of bytes that begins a
character but does not complete one, and every other byte that begins none, is read as the
replacement character U+FFFD.
-/
set_option autoImplicit false

namespace TieredVM.Text

structure ByteRange where
  low : UInt8
  high : UInt8
  deriving DecidableEq, Repr

def ByteRange.contains (range : ByteRange) (byte : UInt8) : Bool :=
  range.low ≤ byte && byte ≤ range.high

def continuation : ByteRange := ⟨0x80, 0xbf⟩

/-- How a character of more than one byte goes on after its first byte: the payload of that byte,
and the ranges of the bytes to come. The narrower ranges leave out spellings that are too long,
surrogates, and numbers above U+10FFFF. -/
def lead? (byte : UInt8) : Option (Nat × List ByteRange) :=
  if byte < 0xc2 then none
  else if byte < 0xe0 then some (byte.toNat % 32, [continuation])
  else if byte = 0xe0 then some (0, [⟨0xa0, 0xbf⟩, continuation])
  else if byte = 0xed then some (13, [⟨0x80, 0x9f⟩, continuation])
  else if byte < 0xf0 then some (byte.toNat % 16, [continuation, continuation])
  else if byte = 0xf0 then some (0, [⟨0x90, 0xbf⟩, continuation, continuation])
  else if byte < 0xf4 then some (byte.toNat % 8, [continuation, continuation, continuation])
  else if byte = 0xf4 then some (4, [⟨0x80, 0x8f⟩, continuation, continuation])
  else none

def replacement : Char := '\uFFFD'

/-- Completes a character whose value is `value` so far from bytes in the given ranges. The result
is the character, or the replacement at the first byte out of range, and the bytes not used. -/
def complete (value : Nat) : List ByteRange → (bytes : List UInt8) →
    Char × { rest : List UInt8 // rest.length ≤ bytes.length }
  | [], bytes => (Char.ofNat value, ⟨bytes, Nat.le_refl _⟩)
  | _ :: _, [] => (replacement, ⟨[], Nat.le_refl _⟩)
  | range :: ranges, byte :: bytes =>
    if range.contains byte then
      let (char, rest) := complete (value * 64 + byte.toNat % 64) ranges bytes
      (char, ⟨rest.val, Nat.le_succ_of_le rest.property⟩)
    else
      (replacement, ⟨byte :: bytes, Nat.le_refl _⟩)

def decodeLossy : List UInt8 → List Char
  | [] => []
  | byte :: bytes =>
    if byte < 0x80 then
      Char.ofNat byte.toNat :: decodeLossy bytes
    else
      match lead? byte with
      | none => replacement :: decodeLossy bytes
      | some (value, ranges) =>
        let (char, rest) := complete value ranges bytes
        char :: decodeLossy rest.val
termination_by bytes => bytes.length
decreasing_by
  all_goals simp only [List.length_cons]
  · omega
  · omega
  · exact Nat.lt_succ_of_le rest.property

def ofBytesLossy (bytes : List UInt8) : String := String.ofList (decodeLossy bytes)

end TieredVM.Text
