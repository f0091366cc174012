import TieredVM.Machine.State
/-!
The choice between interpreting and compiling. Every call of a function counts until the threshold
of the configuration is reached; at that call the compiler is asked for the function, once and for
all.
-/
set_option autoImplicit false

namespace TieredVM

structure Compiler where
  refusal? : Function → Option CompileError := fun _ => none
  /-- Report when the compiler is asked for a function and when its code is entered. -/
  audited : Bool := false

def Compiler.compile (compiler : Compiler) (program : Program) (function : Function) :
    Except CompileError ThreadedCode :=
  match compiler.refusal? function with
  | some error => .error error
  | none => ThreadedCode.translate program function

structure Machine where
  program : Program
  config : Config := {}
  compiler : Compiler := {}

inductive Callee where
  | interpreted (id : Nat)
  | compiled (code : ThreadedCode)
  deriving DecidableEq, Repr

def TierSlot.callee (slot : TierSlot) (id : Nat) : Callee :=
  match slot.entry with
  | none => .interpreted id
  | some code => .compiled code

namespace Machine

def diagnose (machine : Machine) (text : String) (state : State) : State :=
  if machine.config.verbose then state.record (.diagnostic text) else state

def promote (machine : Machine) (function : Function) (slot : TierSlot) (state : State) :
    TierSlot × State :=
  let slot := { slot with attempts := slot.attempts + 1 }
  let state := machine.diagnose s!"Attempting to compile {function.name}" state
  let state :=
    if machine.compiler.audited then state.record (.compile function.name) else state
  match machine.compiler.compile machine.program function with
  | .ok code =>
    ({ slot with entry := some code },
      machine.diagnose s!"Successfully compiled {function.name}" state)
  | .error error =>
    ({ slot with failed := true },
      machine.diagnose s!"Failed to compile {function.name}: {error.message}" state)

def count (machine : Machine) (id : Nat) (slot : TierSlot) (state : State) : TierSlot × State :=
  match machine.config.tiering with
  | .interpretOnly => (slot, state)
  | .tiered threshold =>
    if slot.invoked < threshold then
      let slot := { slot with invoked := slot.invoked + 1 }
      if slot.invoked = threshold then
        match machine.program.function? id with
        | none => (slot, state)
        | some function => machine.promote function slot state
      else
        (slot, state)
    else
      (slot, state)

def resolve (machine : Machine) (id : Nat) (state : State) : Option (Callee × State) :=
  match state.tiers[id]? with
  | none => none
  | some slot =>
    let (slot, state) := machine.count id slot state
    some (slot.callee id, { state with tiers := state.tiers.setIfInBounds id slot })

end Machine
end TieredVM
