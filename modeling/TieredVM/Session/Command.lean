set_option autoImplicit false

namespace TieredVM

inductive Command where
  | runMain
  | runWithArgs (id : Nat) (args : Array Int64)
  | call (id : Nat) (args : Array Int64)
  | interpret (id : Nat) (args : Array Int64)
  /-- Compiles a function afresh and runs the result. -/
  | compiled (id : Nat) (args : Array Int64)
  | resolve (id : Nat)
  /-- Counts a call of a function and runs what is chosen for it. -/
  | resolveInvoke (id : Nat) (args : Array Int64)
  /-- Enters a frame of a function, and leaves it after the commands of the body. -/
  | withFrame (id : Nat) (args : Array Int64) (body : List Command)
  | tierSlot (id : Nat)
  | describe
  | setClock (time : Int64)
  | closeOutput (closed : Bool)
  | time
  | printString (text : List UInt8)
  | printInt64 (value : Int64)
  | diagnostic (text : String)

end TieredVM
