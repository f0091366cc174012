import TieredVM.Text.Printable
set_option autoImplicit false

namespace TieredVM.Text

/-- A character between quotation marks: a quotation mark or backslash behind a backslash, the four
usual letters for NUL, tab and the line ends, and the code point in braces for all others that do
not print. -/
def quoteChar (char : Char) : List Char :=
  match char with
  | '"' => ['\\', '"']
  | '\\' => ['\\', '\\']
  | '\x00' => ['\\', '0']
  | '\t' => ['\\', 't']
  | '\n' => ['\\', 'n']
  | '\r' => ['\\', 'r']
  | _ =>
    if isPrintable char then [char]
    else ['\\', 'u', '\x7b'] ++ Nat.toDigits 16 char.toNat ++ ['\x7d']

def quote (text : String) : String :=
  String.ofList ('"' :: text.toList.flatMap quoteChar ++ ['"'])

end TieredVM.Text
