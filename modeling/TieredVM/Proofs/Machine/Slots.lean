import TieredVM.Proofs.Except
import TieredVM.Proofs.Machine.Moves
import TieredVM.Proofs.Machine.Resolve
set_option autoImplicit false

namespace TieredVM

namespace TierPolicy

/-- How far so many calls are counted. -/
def counted : TierPolicy → Nat → Nat
  | interpretOnly, _ => 0
  | tiered threshold, calls => min calls threshold

/-- So many calls are enough for the function to be compiled. -/
def Due : TierPolicy → Nat → Prop
  | interpretOnly, _ => False
  | tiered threshold, calls => 1 ≤ threshold ∧ threshold ≤ calls

instance decidableDue : (policy : TierPolicy) → (calls : Nat) → Decidable (policy.Due calls)
  | interpretOnly, _ => inferInstanceAs (Decidable False)
  | tiered threshold, calls => inferInstanceAs (Decidable (1 ≤ threshold ∧ threshold ≤ calls))

theorem not_due_zero (policy : TierPolicy) : ¬ policy.Due 0 := by
  cases policy with
  | interpretOnly => exact not_false
  | tiered threshold => exact fun h => absurd (Nat.le_trans h.1 h.2) (by decide)

theorem Due.succ {policy : TierPolicy} {calls : Nat} (h : policy.Due calls) :
    policy.Due (calls + 1) := by
  cases policy with
  | interpretOnly => exact h
  | tiered threshold => exact ⟨h.1, Nat.le_succ_of_le h.2⟩

end TierPolicy

/-- The slot of a function of which so many calls were counted. -/
structure TierSlot.Counts (machine : Machine) (function : Function) (calls : Nat)
    (slot : TierSlot) : Prop where
  invoked : slot.invoked = machine.config.tiering.counted calls
  attempts : slot.attempts = if machine.config.tiering.Due calls then 1 else 0
  compiled : ∀ code, slot.entry = some code ↔ machine.config.tiering.Due calls ∧
    machine.compiler.compile machine.program function = .ok code
  failed : slot.failed = true ↔ machine.config.tiering.Due calls ∧
    ∃ error, machine.compiler.compile machine.program function = .error error

theorem TierSlot.counts_zero (machine : Machine) (function : Function) :
    TierSlot.Counts machine function 0 {} := by
  have hnot := machine.config.tiering.not_due_zero
  refine ⟨?_, by rw [if_neg hnot], by simp [hnot], by simp [hnot]⟩
  cases machine.config.tiering with
  | interpretOnly => rfl
  | tiered threshold => simp [TierPolicy.counted]

/-- What a call of a function runs if it is the one that makes so many. -/
def Machine.chosen (machine : Machine) (id : Nat) (function : Function) (calls : Nat) : Callee :=
  if machine.config.tiering.Due calls then
    match machine.compiler.compile machine.program function with
    | .ok code => .compiled code
    | .error _ => .interpreted id
  else
    .interpreted id

theorem Machine.chosen_runs (machine : Machine) (id : Nat) (function : Function) (calls : Nat) :
    (machine.chosen id function calls).Runs machine.program id function := by
  unfold chosen
  split
  · split
    · rename_i hcompile
      exact .compiled (Compiler.translate_of_compile hcompile)
    · exact .interpreted
  · exact .interpreted

namespace TierSlot.Counts

variable {machine : Machine} {function : Function} {calls : Nat} {slot : TierSlot}

theorem entry_eq (h : slot.Counts machine function calls) : slot.entry =
    if machine.config.tiering.Due calls then
      (machine.compiler.compile machine.program function).toOption
    else none := by
  refine Option.ext fun code => ?_
  rw [h.compiled]
  split
  · rename_i hdue
    rw [toOption_eq_some_iff, and_iff_right hdue]
  · rename_i hnot
    simp [hnot]

theorem undecided (h : slot.Counts machine function calls)
    (hnot : ¬ machine.config.tiering.Due calls) : slot.entry = none ∧ slot.failed = false := by
  constructor
  · rw [h.entry_eq, if_neg hnot]
  · rw [Bool.eq_false_iff, ne_eq, h.failed]
    exact fun hfailed => hnot hfailed.1

theorem decided (h : slot.Counts machine function calls)
    (hdue : machine.config.tiering.Due calls) : slot.entry.isSome ↔ slot.failed = false := by
  rw [h.entry_eq, if_pos hdue, Bool.eq_false_iff, ne_eq, h.failed]
  cases machine.compiler.compile machine.program function <;> simp [hdue, Except.toOption]

theorem eq_empty (h : slot.Counts machine function calls)
    (hpolicy : machine.config.tiering = .interpretOnly) : slot = {} := by
  have hnot : ¬ machine.config.tiering.Due calls := by
    rw [hpolicy]
    exact not_false
  obtain ⟨hentry, hfailed⟩ := h.undecided hnot
  have hinvoked := h.invoked
  have hattempts := h.attempts
  rw [hpolicy, TierPolicy.counted] at hinvoked
  rw [if_neg hnot] at hattempts
  cases slot
  simp only at hinvoked hentry hattempts hfailed
  rw [hinvoked, hentry, hattempts, hfailed]

theorem callee (h : slot.Counts machine function calls) (id : Nat) :
    slot.callee id = machine.chosen id function calls := by
  unfold TierSlot.callee Machine.chosen
  rw [h.entry_eq]
  by_cases hdue : machine.config.tiering.Due calls
  · simp only [if_pos hdue]
    cases machine.compiler.compile machine.program function <;> rfl
  · simp only [if_neg hdue]

end TierSlot.Counts

namespace Machine

variable {machine : Machine}

def requests (machine : Machine) (ids : List Nat) : List String :=
  if machine.compiler.audited then
    ids.filterMap fun id => (machine.program.function? id).map (·.name)
  else
    []

theorem requests_append (first second : List Nat) :
    machine.requests (first ++ second) = machine.requests first ++ machine.requests second := by
  unfold requests
  split <;> simp

theorem diagnose_reports (machine : Machine) {asked : List String} {before state : State}
    (text : String) (h : State.Reports asked [] before state) :
    State.Reports asked [] before (machine.diagnose text state) := by
  unfold diagnose
  split
  · exact h.also (.diagnostic text) rfl rfl
  · exact h

theorem promote_reports {id : Nat} {function : Function} (slot : TierSlot) (state : State)
    (hfunction : machine.program.function? id = some function) :
    State.Reports (machine.requests [id]) [] state (machine.promote function slot state).2 := by
  have hasked (s : State) (h : State.Reports [] [] state s) :
      State.Reports (machine.requests [id]) [] state
        (if machine.compiler.audited then s.record (.compile function.name) else s) := by
    simp only [requests, List.filterMap_cons, hfunction, Option.map_some, List.filterMap_nil]
    split
    · exact h.trans (.record s (.compile function.name))
    · exact h
  have hbefore := hasked _
    (machine.diagnose_reports s!"Attempting to compile {function.name}" (.refl state))
  unfold promote
  cases machine.compiler.compile machine.program function with
  | ok code => exact machine.diagnose_reports _ hbefore
  | error error => exact machine.diagnose_reports _ hbefore

section Count

variable {id calls : Nat} {function : Function} {slot : TierSlot}

theorem promote_counts (h : slot.Counts machine function calls) (state : State)
    (hnot : ¬ machine.config.tiering.Due calls) (hdue : machine.config.tiering.Due (calls + 1)) :
    TierSlot.Counts machine function (calls + 1)
      (machine.promote function
        { slot with invoked := machine.config.tiering.counted (calls + 1) } state).1 := by
  obtain ⟨hentry, hfailed⟩ := h.undecided hnot
  have hattempts := h.attempts
  rw [if_neg hnot] at hattempts
  unfold promote
  cases hcompile : machine.compiler.compile machine.program function with
  | ok code => exact ⟨rfl, by simp [hdue, hattempts], by simp [hdue, hcompile],
      by simp [hdue, hcompile, hfailed]⟩
  | error error => exact ⟨rfl, by simp [hdue, hattempts], by simp [hdue, hcompile, hentry],
      by simp [hdue, hcompile]⟩

theorem recount {before : Nat} (h : slot.Counts machine function before) (after : Nat)
    (hdue : machine.config.tiering.Due after ↔ machine.config.tiering.Due before) :
    TierSlot.Counts machine function after
      { slot with invoked := machine.config.tiering.counted after } where
  invoked := rfl
  attempts := by simpa only [hdue] using h.attempts
  compiled code := by simpa only [hdue] using h.compiled code
  failed := by simpa only [hdue] using h.failed

theorem count_counts (h : slot.Counts machine function calls)
    (hfunction : machine.program.function? id = some function) (state : State) :
    TierSlot.Counts machine function (calls + 1) (machine.count id slot state).1 ∧
      State.Reports
        (machine.requests (if machine.config.tiering.Due (calls + 1) ∧
          ¬ machine.config.tiering.Due calls then [id] else []))
        [] state (machine.count id slot state).2 := by
  have hnone : machine.requests [] = [] := by simp [requests]
  have hinvoked := h.invoked
  have hrecount := recount h (calls + 1)
  cases hpolicy : machine.config.tiering with
  | interpretOnly =>
    have hdue (n : Nat) : ¬ TierPolicy.interpretOnly.Due n := not_false
    have hcount : machine.count id slot state = (slot, state) := by simp only [count, hpolicy]
    simp only [hpolicy, TierPolicy.counted] at hinvoked hrecount
    rw [← hinvoked] at hrecount
    rw [hcount, if_neg fun hnew => hdue _ hnew.1, hnone]
    exact ⟨hrecount Iff.rfl, .refl state⟩
  | tiered threshold =>
    have hdue (n : Nat) : (TierPolicy.tiered threshold).Due n ↔ 1 ≤ threshold ∧ threshold ≤ n :=
      Iff.rfl
    have hpromote := promote_counts h state
    simp only [hpolicy, TierPolicy.counted, hdue] at hinvoked hrecount hpromote
    -- Below the threshold the call is added, and at the threshold alone the compiler is asked.
    by_cases hlt : calls < threshold
    · have hslot : slot.invoked = calls := by omega
      have hnext : min (calls + 1) threshold = calls + 1 := by omega
      rw [hnext] at hrecount hpromote
      by_cases heq : calls + 1 = threshold
      · have hcount : machine.count id slot state =
            machine.promote function { slot with invoked := calls + 1 } state := by
          simp only [count, hpolicy, hslot, if_pos hlt, if_pos heq, hfunction]
        rw [hcount, if_pos (by rw [hdue, hdue]; omega)]
        exact ⟨hpromote (by omega) (by omega), promote_reports _ state hfunction⟩
      · have hcount : machine.count id slot state =
            ({ slot with invoked := calls + 1 }, state) := by
          simp only [count, hpolicy, hslot, if_pos hlt, if_neg heq]
        rw [hcount, if_neg (by rw [hdue, hdue]; omega), hnone]
        exact ⟨hrecount (by omega), .refl state⟩
    · have hslot : slot.invoked = threshold := by omega
      have hnext : min (calls + 1) threshold = slot.invoked := by omega
      have hcount : machine.count id slot state = (slot, state) := by
        simp only [count, hpolicy, hslot, if_neg (Nat.lt_irrefl threshold)]
      rw [hnext] at hrecount
      rw [hcount, if_neg (by rw [hdue, hdue]; omega), hnone]
      exact ⟨hrecount (by omega), .refl state⟩

theorem exists_resolve (h : slot.Counts machine function calls)
    (hfunction : machine.program.function? id = some function) {state : State}
    (hslot : state.tiers[id]? = some slot) :
    ∃ found next, machine.resolve id state =
        some (machine.chosen id function (calls + 1),
          { next with tiers := state.tiers.setIfInBounds id found }) ∧
      TierSlot.Counts machine function (calls + 1) found ∧
      State.Reports
        (machine.requests (if machine.config.tiering.Due (calls + 1) ∧
          ¬ machine.config.tiering.Due calls then [id] else []))
        [] state next := by
  obtain ⟨hfound, hreports⟩ := count_counts h hfunction state
  refine ⟨_, _, ?_, hfound, hreports⟩
  simp only [resolve, hslot, hfound.callee, hreports.tiers]

end Count

end Machine
end TieredVM
