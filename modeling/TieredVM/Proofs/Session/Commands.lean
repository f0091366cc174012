import TieredVM.Proofs.Session.Counting
set_option autoImplicit false

namespace TieredVM.Session

open Machine

variable {machine : Machine} {fuel : Nat} {ledger : Ledger}

theorem revisits_after {session next : Session} {reply : Reply} {respond : Outcome → Reply}
    {result : Option (Outcome × State)}
    (hrun : ∀ outcome final, result = some (outcome, final) → machine.Revisits ledger final)
    (h : session.after respond result = some (reply, next)) :
    machine.Revisits ledger next.state := by
  cases result with
  | none => cases h
  | some result =>
    cases h
    exact hrun result.1 result.2 rfl

theorem revisits_print {session next : Session} {reply : Reply} {text : List UInt8}
    (hvisits : machine.Visits ledger (.idle session.state))
    (h : session.print text = some (reply, next)) : machine.Revisits ledger next.state := by
  have hgiven : machine.Visits ledger (.idle session.state.given) := hvisits.hosted _ _ _
  unfold print at h
  split at h
  · rename_i message state hprint
    obtain ⟨-, rfl⟩ := State.print_eq_some hprint
    cases h
    exact hgiven.revisits
  · rename_i state hprint
    obtain ⟨-, rfl⟩ := State.print_eq_none hprint
    cases h
    exact (hgiven.wrote text).revisits

mutual

theorem revisits_perform {session next : Session} {reply : Reply} (command : Command)
    {ledger : Ledger} (hvisits : machine.Visits ledger (.idle session.state))
    (h : session.perform machine fuel command = some (reply, next)) :
    machine.Revisits ledger next.state := by
  cases command with
  | runMain => exact revisits_after (fun _ _ => hvisits.runMain) h
  | runWithArgs id args => exact revisits_after (fun _ _ => hvisits.runWithArgs) h
  | call id args => exact revisits_after (fun _ _ => hvisits.run (.call id args)) h
  | interpret id args => exact revisits_after (fun _ _ => hvisits.interpret) h
  | compiled id args =>
    simp only [perform] at h
    split at h
    · cases h
      exact hvisits.revisits
    · rename_i hfunction
      split at h
      · cases h
        exact hvisits.revisits
      · rename_i htranslate
        exact revisits_after (fun _ _ => hvisits.run (.code args hfunction htranslate)) h
  | resolve id =>
    simp only [perform] at h
    split at h
    · cases h
      exact hvisits.revisits
    · rename_i hresolve
      cases h
      refine ⟨_, ?_, hvisits.resolved hresolve⟩
      rfl
  | resolveInvoke id args =>
    simp only [perform] at h
    split at h
    · cases h
      exact hvisits.revisits
    · rename_i callee state hresolve
      obtain ⟨function, hfunction, rfl, -⟩ := hvisits.counts.of_resolve hresolve
      have hruns := machine.chosen_runs id function (ledger.resolved.count id + 1)
      obtain ⟨later, hlater⟩ := revisits_after
        (fun _ _ => (hvisits.resolved hresolve).run (.callee args hfunction hruns)) h
      exact ⟨later, hlater⟩
  | withFrame id args body =>
    simp only [perform] at h
    split at h
    · cases h
      exact hvisits.revisits
    · rename_i function hfunction
      split at h
      · cases h
      · rename_i reports last hbody
        cases h
        obtain ⟨⟨frames, entered, resolved⟩, hframes, hlast⟩ :=
          revisits_performAll body (hvisits.entered args hfunction) hbody
        cases hframes
        refine ⟨_, ?_, hlast.left⟩
        rfl
  | tierSlot id | describe =>
    cases h
    exact hvisits.revisits
  | setClock clock | closeOutput closed | time =>
    cases h
    exact (hvisits.hosted _ _ _).revisits
  | diagnostic text =>
    cases h
    exact (hvisits.noted text).revisits
  | printString text | printInt64 value => exact revisits_print hvisits h

theorem revisits_performAll {session next : Session} {reports : List Report}
    (commands : List Command) {ledger : Ledger}
    (hvisits : machine.Visits ledger (.idle session.state))
    (h : session.performAll machine fuel commands = some (reports, next)) :
    machine.Revisits ledger next.state := by
  cases commands with
  | nil =>
    cases h
    exact hvisits.revisits
  | cons command commands =>
    simp only [performAll] at h
    split at h
    · cases h
    · rename_i reply between hcommand
      split at h
      · cases h
      · rename_i later last hcommands
        cases h
        obtain ⟨middle, hmiddle, hbetween⟩ := revisits_perform command hvisits hcommand
        -- The report after a command is not part of the state.
        change machine.Visits middle (.idle (between.report reply).2.state) at hbetween
        obtain ⟨final, hfinal, hlast⟩ := revisits_performAll commands hbetween hcommands
        exact ⟨final, hfinal.trans hmiddle, hlast⟩

end

end TieredVM.Session
