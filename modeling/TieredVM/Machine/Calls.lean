import TieredVM.Machine.Execution
/-!
The ways to run a function on a machine. Each takes the state before the call and gives the outcome
and the state after it, unless the run takes more than `fuel` steps.
-/
set_option autoImplicit false

namespace TieredVM.Machine

def call (machine : Machine) (fuel id : Nat) (args : Array Int64) (state : State) :
    Option (Outcome × State) :=
  machine.run fuel (machine.startCall id args [] state)

/-- Calls what was chosen for a function before. -/
def invoke (machine : Machine) (fuel : Nat) (callee : Callee) (args : Array Int64)
    (state : State) : Option (Outcome × State) :=
  machine.run fuel (machine.start callee args [] state)

/-- Enters compiled code, without reporting that. -/
def invokeCode (machine : Machine) (fuel : Nat) (code : ThreadedCode) (args : Array Int64)
    (state : State) : Option (Outcome × State) :=
  machine.run fuel (enter (.compiled code) args [] state)

def startWithArgs (machine : Machine) (id : Nat) (args : Array Int64) (state : State) : Progress :=
  match machine.program.function? id with
  | none => .ended (.error (.fault (.unknownFunction id))) state
  | some function =>
    if args.size = function.argCount then
      machine.startCall id args [] state
    else
      let fault := .arityMismatch function.name function.argCount args.size
      .ended (.error (.fault fault)) state

def startMain (machine : Machine) (state : State) : Progress :=
  match machine.program.findFunction? "main" with
  | none => .ended (.error (.fault .missingMain)) state
  | some function => machine.startWithArgs function.id #[] state

def runWithArgs (machine : Machine) (fuel id : Nat) (args : Array Int64) (state : State) :
    Option (Outcome × State) :=
  machine.run fuel (machine.startWithArgs id args state)

def runMain (machine : Machine) (fuel : Nat) (state : State) : Option (Outcome × State) :=
  machine.run fuel (machine.startMain state)

end TieredVM.Machine
