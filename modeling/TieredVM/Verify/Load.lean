import TieredVM.Image.Decode
import TieredVM.Program.Basic
import TieredVM.Verify.Links
import TieredVM.Verify.StackDepth
/-!
From an image, or the file that holds it, to a program whose code has been checked. All defects are
reported: the first that the walk finds in each function, then those of the references.
-/
set_option autoImplicit false

namespace TieredVM

inductive ProgramError where
  | load (error : LoadError)
  | verify (errors : List VerifyError)
  deriving DecidableEq, Repr

def ProgramError.message : ProgramError → String
  | load error => error.message
  | verify errors => s!"program failed verification with {errors.length} error(s)"

def FunctionEntry.check (entry : FunctionEntry) : Except VerifyError Function :=
  match simulate entry.code with
  | .error defect => .error ⟨entry.name, defect⟩
  | .ok summary => .ok {
      name := entry.name
      id := entry.id
      argCount := entry.argCount
      localCount := summary.localCount
      maxStackDepth := summary.maxStackDepth
      code := entry.code }

def Image.stackErrors (image : Image) : List VerifyError :=
  image.functions.filterMap fun entry =>
    match entry.check with
    | .error error => some error
    | .ok _ => none

def Image.verify (image : Image) : Except (List VerifyError) Program :=
  let errors := image.stackErrors ++ image.linkErrors
  if errors.isEmpty then
    let functions := image.functions.filterMap fun entry => entry.check.toOption
    .ok {
      name := image.name
      functions := (functions.mergeSort (·.id ≤ ·.id)).toArray
      strings := ((image.strings.mergeSort (·.id ≤ ·.id)).map (·.bytes)).toArray }
  else
    .error errors

def Program.load (file : List UInt8) : Except ProgramError Program :=
  match Image.decode file with
  | .error error => .error (.load error)
  | .ok image =>
    match image.verify with
    | .error errors => .error (.verify errors)
    | .ok program => .ok program

end TieredVM
