import TieredVM.Proofs.Session.Accounts
/-!
The states that a machine can be in between commands. In all of them the slots hold only what was
compiled from the functions they belong to, and only the frames that are held open are active.
-/
set_option autoImplicit false

namespace TieredVM

/-- The states to which commands lead, while the given frames are held open from outside. -/
inductive Machine.Reached (machine : Machine) : List FrameLink → State → Prop
  | initial : Reached machine [] (State.initial machine.program)
  | performed {frames : List FrameLink} {session next : Session} {fuel : Nat} {command : Command}
    {reply : Reply} :
    Reached machine frames session.state →
    session.perform machine fuel command = some (reply, next) →
    Reached machine frames next.state
  | hosted {frames : List FrameLink} {state : State} (host : Host) :
    Reached machine frames state → Reached machine frames { state with host }
  | entered {frames : List FrameLink} {state : State} {id : Nat} {function : Function}
    (args : Array Int64) :
    Reached machine frames state →
    machine.program.function? id = some function →
    Reached machine (⟨function.id, (state.enter function args).1.onHeap⟩ :: frames)
      (state.enter function args).2
  | left {link : FrameLink} {frames : List FrameLink} {state : State} :
    Reached machine (link :: frames) state → Reached machine frames state.leave

namespace Machine

variable {machine : Machine} {frames : List FrameLink} {state : State}

theorem Reached.visits (h : machine.Reached frames state) :
    ∃ ledger : Ledger, frames = ledger.frames.map Function.link ∧
      machine.Visits ledger (.idle state) := by
  induction h with
  | initial => exact ⟨_, rfl, .initial⟩
  | performed _ hperform ih =>
    obtain ⟨ledger, rfl, hvisits⟩ := ih
    obtain ⟨later, hlater, hnext⟩ := Session.revisits_perform _ hvisits hperform
    exact ⟨later, by rw [hlater], hnext⟩
  | hosted host _ ih =>
    obtain ⟨ledger, rfl, hvisits⟩ := ih
    exact ⟨ledger, rfl, hvisits.hosted host _ _⟩
  | entered args _ hfunction ih =>
    obtain ⟨ledger, rfl, hvisits⟩ := ih
    exact ⟨_, rfl, hvisits.entered args hfunction⟩
  | left _ ih =>
    obtain ⟨⟨held, entered, resolved⟩, hheld, hvisits⟩ := ih
    cases held with
    | nil => cases hheld
    | cons function held =>
      cases hheld
      exact ⟨_, rfl, hvisits.left⟩

theorem Reached.tiers (h : machine.Reached frames state) : machine.program.Tiers state.tiers := by
  obtain ⟨ledger, -, hvisits⟩ := h.visits
  exact hvisits.counts.tiers

theorem Reached.chain (h : machine.Reached frames state) : state.chain = frames := by
  obtain ⟨ledger, rfl, hvisits⟩ := h.visits
  exact hvisits.accounts.chain

end Machine
end TieredVM
