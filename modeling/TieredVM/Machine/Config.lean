set_option autoImplicit false

namespace TieredVM

inductive Dispatch where
  | switch
  | table
  deriving DecidableEq, Repr

inductive TierPolicy where
  | interpretOnly
  /-- At the call with this number. -/
  | tiered (threshold : Nat)
  deriving DecidableEq, Repr

structure Config where
  dispatch : Dispatch := .table
  tiering : TierPolicy := .tiered 10
  verbose : Bool := false
  trace : Bool := false
  deriving DecidableEq, Repr

namespace Config

/-- Three set-ups are known by number. -/
def ofSelection? : Nat → Option Config
  | 0 => some { dispatch := .switch, tiering := .interpretOnly }
  | 1 => some { dispatch := .table, tiering := .interpretOnly }
  | 2 => some {}
  | _ => none

end Config
end TieredVM
