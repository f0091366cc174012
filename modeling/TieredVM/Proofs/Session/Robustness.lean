import TieredVM.Proofs.Machine.Bounds
import TieredVM.Proofs.Session.Reached
set_option autoImplicit false

namespace TieredVM.Machine

variable {machine : Machine} {frames : List FrameLink} {state : State}

/-- The next step of a run looks up nothing that is not there. -/
structure Robust (machine : Machine) (execution : Execution) : Prop where
  slices : ∀ frame ∈ execution.frames,
    (∃ values, frame.stack = .ok values) ∧ ∃ values, frame.locals = .ok values
  asked : machine.asked execution ≠ .error .outOfRange
  args : ∀ id base next frame, machine.asked execution = .ok (.call id base next frame) →
    base ≤ frame.depth ∧ ∃ values, frame.above base = .ok values
  /-- An instruction that runs ends within the code, and the lack of one is a fault. -/
  reads : ∀ function, execution.active.tier = .interpreted function →
    (∃ instr, Instruction.decode function.code execution.active.place = .ok instr ∧
      execution.active.place + instr.encodedLength ≤ function.code.size) ∨
    ∃ error, Instruction.decode function.code execution.active.place = .error error ∧
      machine.asked execution =
        .error (.fault (Site.unreadable ⟨function, execution.active.place⟩ error))
  ops : ∀ code, execution.active.tier = .compiled code → ∀ opAt ∈ code.ops,
    ∃ instr, Instruction.decode code.function.code opAt.offset = .ok instr ∧
      opAt.offset + instr.encodedLength ≤ code.function.code.size
  tiers : execution.state.tiers.size = machine.program.functions.size
  /-- The slot in which a call is counted is still there when the compiler is done. -/
  counted : ∀ id slot, execution.state.tiers[id]? = some slot →
    id < (machine.count id slot execution.state).2.tiers.size

theorem robust_of_inBounds {execution : Execution} {base : State} {plain : Progress}
    (h : (Progress.running execution).InBounds)
    (hfollows : (Progress.running execution).Follows machine.program base plain) :
    machine.Robust execution := by
  have hasked := asked_contained h hfollows.genuine
  refine ⟨?_, hasked.ne_outOfRange, ?_, ?_, ?_, hfollows.echoes.tiers.size, ?_⟩
  · intro frame hframe
    cases h with
    | running hframes => exact ⟨(hframes _ hframe).exists_stack, (hframes _ hframe).exists_locals⟩
  · intro id kept next frame hcall
    rw [hcall] at hasked
    cases hasked.of_ok with
    | call _ _ hframe hkept => exact ⟨hkept, _, hframe.above_eq hkept⟩
  · intro function htier
    cases hdecode : Instruction.decode function.code execution.active.place with
    | ok instr => exact .inl ⟨instr, rfl, Instruction.offset_add_le_of_decode hdecode⟩
    | error error =>
      refine .inr ⟨error, rfl, ?_⟩
      unfold asked
      rw [htier]
      exact interpret_of_decode_error ⟨function, execution.active.place⟩ hdecode
  · intro code htier opAt hop
    have hgenuine := hfollows.genuine
    rw [htier] at hgenuine
    obtain ⟨instr, hdecode, -⟩ := ThreadedCode.exists_instr_of_translate hgenuine hop
    exact ⟨instr, hdecode, Instruction.offset_add_le_of_decode hdecode⟩
  · intro id slot hslot
    rw [count_tiers]
    exact (Array.getElem?_eq_some_iff.1 hslot).1

/-- A call of whatever program ends with a value, with the end of the run or with a fault, if it
ends, and on the way no access goes out of range. -/
theorem call_robust (hreached : machine.Reached frames state) (id : Nat) (args : Array Int64) :
    (∀ fuel outcome final, machine.call fuel id args state = some (outcome, final) →
      (∃ value, outcome = .ok value) ∨ outcome = .error .halt ∨
        ∃ fault, outcome = .error (.fault fault)) ∧
    ∀ count execution,
      machine.advance count (machine.startCall id args [] state) = .running execution →
      machine.Robust execution := by
  have hstart : (machine.startCall id args [] state).InBounds :=
    inBounds_startCall (by simp) id args
  have hfollows := follows_startCall .nil id args (State.echoes_bare hreached.tiers)
  constructor
  · intro fuel outcome final hrun
    have hend := inBounds_advance hstart hfollows fuel
    rw [run_eq_some_iff.1 hrun] at hend
    cases hend with
    | ended _ hne =>
      rcases outcome with (_ | fault | _) | value
      · exact .inr (.inl rfl)
      · exact .inr (.inr ⟨fault, rfl⟩)
      · exact absurd rfl hne
      · exact .inl ⟨value, rfl⟩
  · intro count execution hexecution
    have hbounds := inBounds_advance hstart hfollows count
    obtain ⟨plainCount, hcount⟩ := exists_plain_advance hfollows count
    rw [hexecution] at hbounds hcount
    exact robust_of_inBounds hbounds hcount

/-- Jumps into the operand of its own jump; what it declares has nothing to do with its code. -/
def hostile : Program where
  name := "hostile"
  functions := #[
    { name := "main", id := 0, argCount := 5, localCount := 3, maxStackDepth := 40
      code := (List.flatMap Instruction.encode [.jump 3]).toArray }]
  strings := #[]

def hostileTraced : Machine where
  program := hostile
  config := { tiering := .tiered 1, trace := true }

theorem call_hostile : (hostileTraced.call 20 0 #[7] (State.initial hostile)).map (·.1) =
    some (.error (.fault (.corruptFrame "main" 8))) := by
  decide +kernel

theorem call_robust_hostile : ∃ outcome final,
    hostileTraced.call 20 0 #[7] (State.initial hostile) = some (outcome, final) ∧
      ((∃ value, outcome = .ok value) ∨ outcome = .error .halt ∨
        ∃ fault, outcome = .error (.fault fault)) := by
  obtain ⟨result, hrun, -⟩ := Option.map_eq_some_iff.1 call_hostile
  have hreached : hostileTraced.Reached [] (State.initial hostile) := .initial
  exact ⟨result.1, result.2, hrun, (call_robust hreached 0 #[7]).1 20 _ _ hrun⟩

end TieredVM.Machine
