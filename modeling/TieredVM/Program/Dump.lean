import TieredVM.Instruction.Listing
import TieredVM.Program.Basic
import TieredVM.Text.Utf8
/-!
Programs as text to read: a line for the program, then for each function a line for its head and
one for each instruction, with its offset, mnemonic and operands.
-/
set_option autoImplicit false

namespace TieredVM

def Text.showChar : Char → List Char
  | '\n' => ['\\', 'n']
  | char => [char]

def Text.showBytes (bytes : List UInt8) : String :=
  String.ofList ((Text.decodeLossy bytes).flatMap Text.showChar)

namespace Program

/-- The operands of an instruction, each behind a blank. Functions are shown by name and strings by
content where the program has them. -/
def showOperands (program : Program) : Instruction → String
  | .call function args =>
    let name := (((Word.toIndex? function).bind program.function?).map (·.name)).getD "?"
    s!" {name}({function}) {args}"
  | .printString id =>
    let text := (((Word.toIndex? id).bind program.string?).map Text.showBytes).getD ""
    s!" \"{text}\""
  | instr => String.join (instr.operands.map fun word => s!" {word}")

def listingLines (program : Program) : Listing → List String
  | .done => []
  | .bad error => [s!"\t{error.offset}\t<{error.message}>"]
  | .item offset instr rest =>
    s!"\t{offset}\t{instr.opcode.mnemonic}{program.showOperands instr}" :: listingLines program rest

def functionLines (program : Program) (function : Function) : List String :=
  s!"Function: {function.name} opcodeCount {function.code.size}" ::
    program.listingLines (Listing.ofCode function.code)

def joinLines (lines : List String) : String :=
  String.join (lines.map (· ++ "\n"))

def dumpFunction (program : Program) (function : Function) : String :=
  joinLines (program.functionLines function)

def dump (program : Program) : String :=
  joinLines (s!"Dumping Program: {program.name}" ::
    program.functions.toList.flatMap program.functionLines)

end Program
end TieredVM
