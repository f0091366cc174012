import TieredVM.Image.Basic
import TieredVM.Text.Bytes
import TieredVM.Word
/-!
Writing images as container files. A file holds, between two eyecatchers, the program's name, the
function table behind its one-byte length, and the string table behind its length; ids, counts and
sizes are words. Nothing is checked: a number too large for its field loses its high bits.
-/
set_option autoImplicit false

namespace TieredVM

def Text.encodeName (name : String) : List UInt8 :=
  UInt8.ofNat (Text.bytes name).length :: Text.bytes name

def Word.encodeIndex (n : Nat) : List UInt8 := Word.toBytes (Word.ofIndex n)

def FunctionEntry.encode (entry : FunctionEntry) : List UInt8 :=
  Text.encodeName entry.name ++ Word.encodeIndex entry.id ++ Word.encodeIndex entry.argCount ++
    Word.encodeIndex entry.code.size ++ entry.code.toList

def StringEntry.encode (entry : StringEntry) : List UInt8 :=
  Word.encodeIndex entry.id ++ Word.encodeIndex entry.bytes.length ++ entry.bytes

def Image.encode (image : Image) : List UInt8 :=
  eyecatcher ++ Text.encodeName image.name ++
    (UInt8.ofNat image.functions.length :: image.functions.flatMap FunctionEntry.encode) ++
    Word.encodeIndex image.strings.length ++ image.strings.flatMap StringEntry.encode ++
    eyecatcher

end TieredVM
