import TieredVM.Machine.Frame
set_option autoImplicit false

namespace TieredVM.Frame

inductive Access where
  | push (value : Int64)
  | pop
  | peek
  | truncate (depth : Nat)
  | args
  | arg (index : Nat)
  | getLocal (index : Nat)
  | setLocal (index : Nat) (value : Int64)
  deriving DecidableEq, Repr

inductive Answer where
  | done
  | value (value : Int64)
  | values (values : Array Int64)
  deriving DecidableEq, Repr

/-- What is left after an attempt to change the frame: a denied access leaves it as it is. -/
def changed (frame : Frame) : Except Denial Frame → Except Denial Answer × Frame
  | .error denial => (.error denial, frame)
  | .ok next => (.ok .done, next)

def perform (frame : Frame) : Access → Except Denial Answer × Frame
  | .push value => frame.changed (frame.push value)
  | .pop =>
    match frame.pop with
    | .error denial => (.error denial, frame)
    | .ok (value, next) => (.ok (.value value), next)
  | .peek => (frame.peek.map .value, frame)
  | .truncate depth => (.ok .done, frame.truncate depth)
  | .args => (.ok (.values frame.args), frame)
  | .arg index => ((frame.arg index).map .value, frame)
  | .getLocal index => ((frame.local? index).map .value, frame)
  | .setLocal index value => frame.changed (frame.setLocal index value)

structure View where
  answer : Except Denial Answer
  depth : Nat
  stack : Except Denial (Array Int64)
  locals : Except Denial (Array Int64)

def observe (frame : Frame) : List Access → List View
  | [] => []
  | access :: rest =>
    let (answer, next) := frame.perform access
    { answer, depth := next.depth, stack := next.stack, locals := next.locals } :: next.observe rest

end TieredVM.Frame
