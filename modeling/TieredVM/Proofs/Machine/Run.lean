import TieredVM.Machine.Calls
set_option autoImplicit false

namespace TieredVM

namespace Machine

variable {machine : Machine}

def advance (machine : Machine) : Nat → Progress → Progress
  | _, .ended outcome state => .ended outcome state
  | 0, .running execution => .running execution
  | count + 1, .running execution => advance machine count (machine.step execution)

@[simp] theorem run_ended (fuel : Nat) (outcome : Outcome) (state : State) :
    machine.run fuel (.ended outcome state) = some (outcome, state) := by
  cases fuel <;> rfl

@[simp] theorem advance_ended (count : Nat) (outcome : Outcome) (state : State) :
    machine.advance count (.ended outcome state) = .ended outcome state := by
  cases count <;> rfl

@[simp] theorem advance_zero (progress : Progress) : machine.advance 0 progress = progress := by
  cases progress <;> rfl

theorem advance_add (first second : Nat) (progress : Progress) :
    machine.advance (first + second) progress =
      machine.advance second (machine.advance first progress) := by
  induction first generalizing progress with
  | zero => simp
  | succ first ih =>
    cases progress with
    | ended outcome state => simp
    | running execution =>
      rw [Nat.succ_add]
      exact ih _

theorem advance_succ_of_running {count : Nat} {progress : Progress} {execution : Execution}
    (h : machine.advance count progress = .running execution) :
    machine.advance (count + 1) progress = machine.step execution := by
  rw [advance_add, h, advance, advance_zero]

theorem advance_succ_of_ended {count : Nat} {progress : Progress} {outcome : Outcome}
    {state : State} (h : machine.advance count progress = .ended outcome state) :
    machine.advance (count + 1) progress = .ended outcome state := by
  rw [advance_add, h, advance_ended]

theorem exists_running_of_succ {start : Progress} {count : Nat} {later : Execution}
    (h : machine.advance (count + 1) start = .running later) :
    ∃ execution, machine.advance count start = .running execution ∧
      machine.step execution = .running later := by
  cases hcount : machine.advance count start with
  | ended outcome state =>
    rw [advance_succ_of_ended hcount] at h
    cases h
  | running execution => exact ⟨execution, rfl, (advance_succ_of_running hcount).symm.trans h⟩

/-- A run that ends does so after the step of any instruction that it has faced. -/
theorem exists_ended_of_running {start : Progress} {execution : Execution} {first fuel : Nat}
    {outcome : Outcome} {final : State}
    (hrunning : machine.advance first start = .running execution)
    (hended : machine.advance fuel start = .ended outcome final) :
    ∃ count, machine.advance count (machine.step execution) = .ended outcome final := by
  rcases Nat.lt_or_ge first fuel with hlt | hge
  · obtain ⟨count, rfl⟩ := Nat.exists_eq_add_of_le (Nat.succ_le_of_lt hlt)
    rw [advance_add, advance_succ_of_running hrunning] at hended
    exact ⟨count, hended⟩
  · obtain ⟨count, rfl⟩ := Nat.exists_eq_add_of_le hge
    rw [advance_add, hended, advance_ended] at hrunning
    cases hrunning

theorem ended_unique {start : Progress} {first second : Nat} {outcome outcome' : Outcome}
    {final final' : State} (h : machine.advance first start = .ended outcome final)
    (h' : machine.advance second start = .ended outcome' final') :
    outcome = outcome' ∧ final = final' := by
  have hsame : machine.advance (first + second) start = .ended outcome final := by
    rw [advance_add, h, advance_ended]
  rw [Nat.add_comm, advance_add, h', advance_ended] at hsame
  cases hsame
  exact ⟨rfl, rfl⟩

theorem run_eq_some_iff {fuel : Nat} {progress : Progress} {outcome : Outcome} {final : State} :
    machine.run fuel progress = some (outcome, final) ↔
      machine.advance fuel progress = .ended outcome final := by
  induction fuel generalizing progress with
  | zero => cases progress <;> simp [run, advance]
  | succ fuel ih =>
    cases progress with
    | ended found state => simp [run, advance]
    | running execution => exact ih

end Machine
end TieredVM
