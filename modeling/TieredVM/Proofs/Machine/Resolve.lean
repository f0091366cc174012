import TieredVM.Proofs.Machine.Effect
set_option autoImplicit false

namespace TieredVM

def Machine.plain (machine : Machine) : Machine where
  program := machine.program
  config := { dispatch := .switch, tiering := .interpretOnly, trace := machine.config.trace }

inductive Callee.Runs (program : Program) (id : Nat) (function : Function) : Callee → Prop
  | interpreted : Runs program id function (.interpreted id)
  | compiled {code : ThreadedCode} :
    ThreadedCode.translate program function = .ok code →
    Runs program id function (.compiled code)

/-- A compiler only chooses what to compile, not how. -/
theorem Compiler.translate_of_compile {compiler : Compiler} {program : Program}
    {function : Function} {code : ThreadedCode}
    (h : compiler.compile program function = .ok code) :
    ThreadedCode.translate program function = .ok code := by
  unfold compile at h
  split at h
  · cases h
  · exact h

namespace Machine

variable {machine : Machine} {base state echo : State}

theorem diagnose_echoes (text : String) (h : state.Echoes machine.program base echo) :
    (machine.diagnose text state).Echoes machine.program base echo := by
  unfold diagnose
  split
  · exact h.record_left (by rfl) (by rfl)
  · exact h

theorem promote_echoes {function : Function} {slot : TierSlot}
    (h : state.Echoes machine.program base echo)
    (hslot : ∀ code, slot.entry = some code →
      ThreadedCode.translate machine.program function = .ok code) :
    (machine.promote function slot state).2.Echoes machine.program base echo ∧
      ∀ code, (machine.promote function slot state).1.entry = some code →
        ThreadedCode.translate machine.program function = .ok code := by
  have hasked : ∀ s : State, s.Echoes machine.program base echo →
      (if machine.compiler.audited then s.record (.compile function.name) else s).Echoes
        machine.program base echo := by
    intro s hs
    split
    · exact hs.record_left (by rfl) (by rfl)
    · exact hs
  have hstate := hasked _ (diagnose_echoes s!"Attempting to compile {function.name}" h)
  unfold promote
  cases hcompile : machine.compiler.compile machine.program function with
  | error error => exact ⟨diagnose_echoes _ hstate, hslot⟩
  | ok code =>
    refine ⟨diagnose_echoes _ hstate, fun found hfound => ?_⟩
    cases hfound
    exact Compiler.translate_of_compile hcompile

theorem count_echoes {id : Nat} {function : Function} {slot : TierSlot}
    (h : state.Echoes machine.program base echo)
    (hfunction : machine.program.function? id = some function)
    (hslot : ∀ code, slot.entry = some code →
      ThreadedCode.translate machine.program function = .ok code) :
    (machine.count id slot state).2.Echoes machine.program base echo ∧
      ∀ code, (machine.count id slot state).1.entry = some code →
        ThreadedCode.translate machine.program function = .ok code := by
  unfold count
  split
  · exact ⟨h, hslot⟩
  · split
    · simp only [hfunction]
      split
      · exact promote_echoes h hslot
      · exact ⟨h, hslot⟩
    · exact ⟨h, hslot⟩

theorem count_tiers (machine : Machine) (id : Nat) (slot : TierSlot) (state : State) :
    (machine.count id slot state).2.tiers = state.tiers := by
  have hdiagnose : ∀ text state, (machine.diagnose text state).tiers = state.tiers := by
    intro text state
    unfold diagnose
    split <;> rfl
  have hpromote : ∀ function slot, (machine.promote function slot state).2.tiers = state.tiers := by
    intro function slot
    unfold promote
    cases machine.compiler.compile machine.program function <;>
      by_cases haudited : machine.compiler.audited <;>
      simp [hdiagnose, haudited, State.record]
  unfold count
  split
  · rfl
  · split
    · cases machine.program.function? id with
      | none =>
        simp only
        split <;> rfl
      | some function =>
        simp only
        split
        · exact hpromote _ _
        · rfl
    · rfl

theorem resolve_echoes {id : Nat} {function : Function}
    (h : state.Echoes machine.program base echo)
    (hfunction : machine.program.function? id = some function) :
    ∃ callee next, machine.resolve id state = some (callee, next) ∧
      next.Echoes machine.program base echo ∧ callee.Runs machine.program id function := by
  have hlt : id < state.tiers.size := by
    rw [h.tiers.size]
    exact (Array.getElem?_eq_some_iff.1 hfunction).1
  have hslot : state.tiers[id]? = some state.tiers[id] := Array.getElem?_eq_getElem hlt
  have hentry : ∀ code, state.tiers[id].entry = some code →
      ThreadedCode.translate machine.program function = .ok code := by
    intro code hcode
    obtain ⟨found, hfound, htranslate⟩ := h.tiers.entry id _ code hslot hcode
    rw [hfunction, Option.some.injEq] at hfound
    exact hfound ▸ htranslate
  have hcount := count_echoes h hfunction hentry
  cases hc : machine.count id state.tiers[id] state with
  | mk slot next =>
    obtain ⟨hnext, hnew⟩ := hc ▸ hcount
    refine ⟨slot.callee id, { next with tiers := next.tiers.setIfInBounds id slot },
      by simp only [resolve, hslot, hc], hnext.setTiers ⟨?_, ?_⟩, ?_⟩
    · simp [hnext.tiers.size]
    · intro other found code hother hcode
      rw [Array.getElem?_setIfInBounds] at hother
      split at hother
      · rename_i heq
        split at hother
        · cases hother
          exact ⟨function, heq ▸ hfunction, hnew code hcode⟩
        · cases hother
      · exact hnext.tiers.entry other found code hother hcode
    · unfold TierSlot.callee
      cases hcode : slot.entry with
      | none => exact .interpreted
      | some code => exact .compiled (hnew code hcode)

theorem resolve_eq_none {id : Nat} (hsize : state.tiers.size = machine.program.functions.size)
    (hfunction : machine.program.function? id = none) : machine.resolve id state = none := by
  have hslot : state.tiers[id]? = none := by
    simp only [Program.function?, Array.getElem?_eq_none_iff] at hfunction
    simp only [Array.getElem?_eq_none_iff]
    omega
  simp [resolve, hslot]

theorem plain_resolve {id : Nat} {function : Function}
    (h : echo.tiers = (State.initial machine.program).tiers)
    (hfunction : machine.program.function? id = some function) :
    machine.plain.resolve id echo = some (.interpreted id, echo) := by
  have hslot : echo.tiers[id]? = some {} := by
    simp only [h, State.initial, Array.getElem?_map]
    exact congrArg (Option.map _) hfunction
  have hsame : echo.tiers.setIfInBounds id {} = echo.tiers := by
    apply Array.ext_getElem?
    intro i
    rw [Array.getElem?_setIfInBounds]
    split
    · rename_i heq
      subst heq
      rw [hslot, if_pos (Array.getElem?_eq_some_iff.1 hslot).1]
    · rfl
  simp [resolve, hslot, count, plain, TierSlot.callee, hsame]

end Machine
end TieredVM
