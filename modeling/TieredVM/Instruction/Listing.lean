import TieredVM.Instruction.Decode
/-!
The instructions of a function's code, one after another with their offsets, up to the end of the
code or to the first place where no instruction can be read.
-/
set_option autoImplicit false

namespace TieredVM

inductive Listing where
  | done
  | bad (error : DecodeError)
  | item (offset : Nat) (instr : Instruction) (rest : Listing)
  deriving DecidableEq, Repr

namespace Listing

def ofOffset (code : Array UInt8) (offset : Nat) : Listing :=
  if offset < code.size then
    match Instruction.decode code offset with
    | .error error => bad error
    | .ok instr => item offset instr (ofOffset code (offset + instr.encodedLength))
  else
    done
termination_by code.size - offset
decreasing_by
  have := instr.encodedLength_pos
  omega

def ofCode (code : Array UInt8) : Listing := ofOffset code 0

def items : Listing → List (Nat × Instruction)
  | done | bad _ => []
  | item offset instr rest => (offset, instr) :: rest.items

def error? : Listing → Option DecodeError
  | done => none
  | bad error => some error
  | item _ _ rest => rest.error?

/-- All that is read, one after another: the instructions with their offsets and, if the listing
stops before the end of the code, why it does. -/
def results : Listing → List (Except DecodeError (Nat × Instruction))
  | done => []
  | bad error => [.error error]
  | item offset instr rest => .ok (offset, instr) :: rest.results

def offsets (listing : Listing) : List Nat := listing.items.map (·.1)

end Listing
end TieredVM
