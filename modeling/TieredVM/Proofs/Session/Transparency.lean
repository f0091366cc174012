import TieredVM.Proofs.Machine.Follow
import TieredVM.Proofs.Session.Reached
set_option autoImplicit false

namespace TieredVM

/-- Every end of the first run, from `before` on, is an end of the second, from `before'` on, with
the same value or reason and with the same effect. -/
def Mirrors (first second : Nat → Option (Outcome × State)) (before before' : State) : Prop :=
  ∀ fuel outcome after, first fuel = some (outcome, after) →
    ∃ fuel' after' effect, second fuel' = some (outcome, after') ∧
      before.Adds effect after ∧ before'.Adds effect after'

/-- Both runs end or none, and if they do they end alike. -/
structure Alike (first second : Nat → Option (Outcome × State)) (before before' : State) :
    Prop where
  left : Mirrors first second before before'
  right : Mirrors second first before' before

namespace Machine

variable {a b : Machine} {s t : State}

theorem mirrors_of_follows {first second plain : Progress} (hplain : a.plain = b.plain)
    (hfirst : first.Follows a.program s plain) (hsecond : second.Follows b.program t plain) :
    Mirrors (a.run · first) (b.run · second) s t := by
  intro fuel outcome after hrun
  obtain ⟨count, hcount⟩ := exists_plain_advance hfirst fuel
  rw [run_eq_some_iff.1 hrun] at hcount
  obtain ⟨echo, hecho, hechoes⟩ := hcount.of_ended
  obtain ⟨fuel', hfuel⟩ := exists_advance hsecond count
  rw [← hplain, hecho] at hfuel
  obtain ⟨after', hafter, hechoes'⟩ := hfuel.of_plain_ended
  exact ⟨fuel', after', _, run_eq_some_iff.2 hafter, hechoes.adds, hechoes'.adds⟩

/-- Calls do not depend on dispatch, tiers, compiler or reports, from whatever states with the same
open frames they start, as long as the host gives the same answers. -/
theorem calls_alike {frames : List FrameLink} (hprogram : a.program = b.program)
    (htrace : a.config.trace = b.config.trace) (hs : a.Reached frames s) (ht : b.Reached frames t)
    (hanswers : s.answers = t.answers) (id : Nat) (args : Array Int64) :
    Alike (a.call · id args s) (b.call · id args t) s t ∧
      Alike (a.runWithArgs · id args s) (b.runWithArgs · id args t) s t := by
  -- Both machines follow one and the same plain run, from one and the same bare state.
  have hplain : a.plain = b.plain := by
    simp only [plain, hprogram, htrace]
  have hbare : s.bare a.program = s.bare b.program := by rw [hprogram]
  have hsecho := State.echoes_bare hs.tiers
  have htecho := State.echoes_bare_of_answers ht.tiers (ht.chain.trans hs.chain.symm) hanswers.symm
  rw [← hbare] at htecho
  have hcall := follows_startCall .nil id args hsecho
  have hcall' := follows_startCall .nil id args htecho
  have hrun := follows_startWithArgs id args hsecho
  have hrun' := follows_startWithArgs id args htecho
  rw [← hplain] at hcall' hrun'
  exact ⟨⟨mirrors_of_follows hplain hcall hcall', mirrors_of_follows hplain.symm hcall' hcall⟩,
    ⟨mirrors_of_follows hplain hrun hrun', mirrors_of_follows hplain.symm hrun' hrun⟩⟩

def successor : Program where
  name := "successor"
  functions := #[
    { name := "main", id := 0, argCount := 1, localCount := 0, maxStackDepth := 1
      code := (List.flatMap Instruction.encode [.pushArg 0, .call 1 1, .ret]).toArray },
    { name := "next", id := 1, argCount := 1, localCount := 0, maxStackDepth := 2
      code := (List.flatMap Instruction.encode [.nop, .pushArg 0, .jump 19, .nop, .pushConstant 1,
        .binary .add, .ret]).toArray }]
  strings := #[]

theorem call_successor :
    (Machine.call { program := successor, config := { tiering := .interpretOnly } } 20 0 #[5]
      (State.initial successor)).map (·.1) = some (.ok 6) := by
  decide +kernel

theorem calls_alike_successor : ∃ fuel after,
    Machine.call { program := successor, config := { dispatch := .switch, tiering := .tiered 1 } }
      fuel 0 #[5] (State.initial successor) = some (.ok 6, after) := by
  have hanswers : (State.initial successor).answers = .recording 0 false :=
    State.answers_of_recording rfl
  have halike := calls_alike
    (a := { program := successor, config := { tiering := .interpretOnly } })
    (b := { program := successor, config := { dispatch := .switch, tiering := .tiered 1 } })
    rfl rfl .initial .initial (hanswers.trans hanswers.symm) 0 #[5]
  obtain ⟨result, hrun, houtcome⟩ := Option.map_eq_some_iff.1 call_successor
  obtain ⟨fuel, after, -, hfound, -⟩ := halike.1.left 20 result.1 result.2 hrun
  exact ⟨fuel, after, houtcome ▸ hfound⟩

end Machine
end TieredVM
