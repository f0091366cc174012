import TieredVM.Text.Quoted
set_option autoImplicit false

namespace TieredVM

inductive BuildError where
  | unboundLabel (label : Nat)
  | labelRebound (label : Nat)
  | undeclaredFunction (id : Nat)
  | undefinedFunction (name : String)
  | nameTooLong (name : String) (length : Nat)
  | tooManyFunctions (count : Nat)
  deriving DecidableEq, Repr

def BuildError.message : BuildError → String
  | unboundLabel label => s!"label {label} used but never bound"
  | labelRebound label => s!"label {label} bound more than once"
  | undeclaredFunction id => s!"function {id} was never declared"
  | undefinedFunction name => s!"function {Text.quote name} declared but never defined"
  | nameTooLong name length => s!"name {Text.quote name} is {length} bytes, limit is 127"
  | tooManyFunctions count => s!"{count} functions, limit is 127"

end TieredVM
