import TieredVM.Machine.Calls
import TieredVM.Session.Command
import TieredVM.Session.Report
/-!
Sessions with one machine: a list of commands is carried out in order, and each is reported on when
it is done, the commands inside a frame before the frame itself.
-/
set_option autoImplicit false

namespace TieredVM

/-- The state of a machine, and how many events have been reported. -/
structure Session where
  state : State
  reported : Nat := 0

namespace Session

def start (state : State) : Session := { state }

def report (session : Session) (reply : Reply) : Report × Session :=
  let events := (session.state.journal.extract session.reported).toList
  (.mk reply events session.state, { session with reported := session.state.journal.size })

def after (session : Session) (reply : Outcome → Reply) (result : Option (Outcome × State)) :
    Option (Reply × Session) :=
  result.map fun (outcome, state) => (reply outcome, { session with state })

def answer (session : Session) (reply : Reply) : Option (Reply × Session) :=
  some (reply, session)

def print (session : Session) (text : List UInt8) : Option (Reply × Session) :=
  match session.state.print text with
  | (some message, state) => some (.refused message, { session with state })
  | (none, state) => some (.done, { session with state })

mutual

/-- Carries out a command. The result is missing if a run takes more than `fuel` steps. -/
def perform (machine : Machine) (fuel : Nat) (session : Session) :
    Command → Option (Reply × Session)
  | .runMain => session.after .run (machine.runMain fuel session.state)
  | .runWithArgs id args => session.after .run (machine.runWithArgs fuel id args session.state)
  | .call id args => session.after .call (machine.call fuel id args session.state)
  | .interpret id args =>
    session.after .call (machine.invoke fuel (.interpreted id) args session.state)
  | .compiled id args =>
    match machine.program.function? id with
    | none => session.answer (.fault (.unknownFunction id))
    | some function =>
      match ThreadedCode.translate machine.program function with
      | .error error => session.answer (.compileError error)
      | .ok code => session.after .call (machine.invokeCode fuel code args session.state)
  | .resolve id =>
    match machine.resolve id session.state with
    | none => session.answer (.fault (.unknownFunction id))
    | some (callee, state) => some (.callee callee, { session with state })
  | .resolveInvoke id args =>
    match machine.resolve id session.state with
    | none => session.answer (.fault (.unknownFunction id))
    | some (callee, state) => session.after .call (machine.invoke fuel callee args state)
  | .withFrame id args body =>
    match machine.program.function? id with
    | none => session.answer (.fault (.unknownFunction id))
    | some function =>
      let (frame, state) := session.state.enter function args
      match performAll machine fuel { session with state } body with
      | none => none
      | some (reports, session) =>
        some (.frame frame.onHeap frame.args state.callChain reports,
          { session with state := session.state.leave })
  | .tierSlot id => session.answer (.slot session.state.tiers[id]?)
  | .describe => session.answer (.text (machine.describe session.state))
  | .setClock clock =>
    let host := { session.state.host with times := (Host.recording clock false).times }
    some (.done, { session with state := { session.state with host } })
  | .closeOutput closed =>
    let host := { session.state.host with refusals := (Host.recording 0 closed).refusals }
    some (.done, { session with state := { session.state with host } })
  | .time =>
    let (time, state) := session.state.time
    some (.time time, { session with state })
  | .printString text => session.print text
  | .printInt64 value => session.print (Text.decimal value)
  | .diagnostic text =>
    some (.done, { session with state := session.state.record (.diagnostic text) })

def performAll (machine : Machine) (fuel : Nat) (session : Session) :
    List Command → Option (List Report × Session)
  | [] => some ([], session)
  | command :: commands =>
    match perform machine fuel session command with
    | none => none
    | some (reply, session) =>
      let (report, session) := session.report reply
      match performAll machine fuel session commands with
      | none => none
      | some (reports, session) => some (report :: reports, session)

end

end Session
end TieredVM
