import TieredVM.Image.Basic
import TieredVM.Instruction.Listing
import TieredVM.Verify.Error
set_option autoImplicit false

namespace TieredVM

namespace Image

def linkDefect? (image : Image) (entry : FunctionEntry) (offset : Nat) :
    Instruction → Option Defect
  | .call function args =>
    match (Word.toIndex? function).bind image.function? with
    | none => some (.unknownFunction offset function)
    | some callee =>
      if args = Word.ofIndex callee.argCount then none
      else some (.argCountMismatch offset callee.name args callee.argCount)
  | .printString id =>
    match (Word.toIndex? id).filter (· < image.strings.length) with
    | none => some (.unknownString offset id)
    | some _ => none
  | .pushArg arg =>
    match (Word.toIndex? arg).filter (entry.argCount ≤ ·) with
    | none => none
    | some _ => some (.argIndexOutOfRange offset arg entry.argCount)
  | _ => none

/-- All defects of the references in a function, as far as its code can be read. -/
def linkDefects (image : Image) (entry : FunctionEntry) : List Defect :=
  (Listing.ofCode entry.code).items.filterMap fun (offset, instr) =>
    image.linkDefect? entry offset instr

def linkErrors (image : Image) : List VerifyError :=
  image.functions.flatMap fun entry => (image.linkDefects entry).map (⟨entry.name, ·⟩)

end Image
end TieredVM
