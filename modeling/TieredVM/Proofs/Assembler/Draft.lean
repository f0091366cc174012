import TieredVM.Proofs.Assembler.Patching
import TieredVM.Proofs.List
/-!
Builders between two resets. The steps since the last reset settle everything a builder holds except
the bytes in the holes, and no later answer depends on those. Main statement: after a `finish` that
lacks a place, whatever it has patched, the builder answers as if that step had not been made.
-/
set_option autoImplicit false

namespace TieredVM.Body

def Unbound (body : Body) : Prop := ∃ label, body.finish.1 = .error (.unboundLabel label)

/-- The builder holds what the steps have added to an empty one, up to what stands in the holes. -/
structure Draft (steps : List Step) (body : Body) : Prop where
  fills : Fills steps body.code.toList
  holes : body.holes.toList = holesFrom 0 steps

/-- Nothing was done yet, or the last step emptied the builder. -/
def Anew (steps : List Step) : Prop :=
  steps = [] ∨ ∃ before, steps = before ++ [.finish] ∧ ¬ (empty.after before).Unbound

/-- No step empties the builder: whenever it was to finish, a label lacked its place. -/
def Kept (start : Body) (steps : List Step) : Prop :=
  ∀ before later, steps = before ++ .finish :: later → (start.after before).Unbound

variable {start body body' next : Body} {step : Step} {steps : List Step} {bytes : List UInt8}

theorem draft_empty : Draft [] empty := ⟨.nil, rfl⟩

theorem Draft.size_eq (h : Draft steps body) : body.size = length steps :=
  Array.length_toList.symm.trans h.fills.length_eq

section Operations

variable (body) (label : Nat)

theorem place?_newLabel : body.newLabel.2.place? = body.place? := by
  funext other
  by_cases h : other = body.places.size <;> simp [newLabel, place?, Array.getElem?_push, h]

theorem code_bind : (body.bind label).code = body.code := by
  unfold bind
  split <;> rfl

theorem holes_bind : (body.bind label).holes = body.holes := by
  unfold bind
  split <;> rfl

end Operations

theorem Draft.add (h : Draft steps body) (hwrites : step.Writes bytes)
    (hcode : next.code.toList = body.code.toList ++ bytes)
    (hholes : next.holes.toList = body.holes.toList ++
      (step.target?.map fun label => { offset := body.size + 1, label }).toList) :
    Draft (steps ++ [step]) next where
  fills := hcode ▸ h.fills.concat hwrites
  holes := by
    rw [hholes, h.holes, holesFrom_append, Nat.zero_add, h.size_eq, holesFrom, holesFrom,
      List.append_nil]

theorem Draft.perform (h : Draft steps body) (hstep : step ≠ .finish) :
    Draft (steps ++ [step]) (body.perform step).2 := by
  cases step with
  | newLabel => exact h.add .newLabel (List.append_nil _).symm (List.append_nil _).symm
  | bind label =>
    refine h.add (.bind label) ?_ ?_
    · simp [Body.perform, code_bind]
    · simp [Body.perform, holes_bind, Step.target?]
  | emit instr =>
    refine h.add (.emit instr) ?_ (List.append_nil _).symm
    simp [Body.perform, emit]
  | jump kind label =>
    refine h.add (.jump kind label (List.length_replicate (a := 0))) ?_ ?_
    · simp [Body.perform, jump]
    · simp [Body.perform, jump, Step.target?]
  | finish => exact absurd rfl hstep

def verdict (rebound : Option Nat) (place? : Nat → Option Nat) (steps : List Step) :
    Except BuildError (List UInt8) :=
  match rebound, (targets steps).find? fun label => (place? label).isNone with
  | some label, _ => .error (.labelRebound label)
  | none, some label => .error (.unboundLabel label)
  | none, none =>
    .ok ((instructions (fun label => (place? label).getD 0) steps).flatMap Instruction.encode)

section Finish

variable {label : Nat}

theorem finish_of_rebound (h : body.rebound = some label) :
    body.finish = (.error (.labelRebound label), empty) := by
  simp only [finish, h]

theorem finish_of_missing (h : body.rebound = none)
    (hpatch : (patch body.place? body.code body.holes.toList).1 = some label) :
    body.finish = (.error (.unboundLabel label),
      { body with code := (patch body.place? body.code body.holes.toList).2 }) := by
  generalize hresult : patch body.place? body.code body.holes.toList = result at hpatch
  obtain ⟨missing, code⟩ := result
  obtain rfl : missing = some label := hpatch
  simp only [finish, h, hresult]

theorem finish_of_patched (h : body.rebound = none)
    (hpatch : (patch body.place? body.code body.holes.toList).1 = none) :
    body.finish = (.ok (patch body.place? body.code body.holes.toList).2.toList, empty) := by
  generalize hresult : patch body.place? body.code body.holes.toList = result at hpatch
  obtain ⟨missing, code⟩ := result
  obtain rfl : missing = none := hpatch
  simp only [finish, h, hresult]

end Finish

theorem Draft.patched (h : Draft steps body) :
    Patched body.place? [] steps (patch body.place? body.code body.holes.toList) := by
  rw [h.holes]
  exact patched_patch body.place? h.fills (List.nil_append _).symm

theorem Draft.fst_patch (h : Draft steps body) :
    (patch body.place? body.code body.holes.toList).1 =
      (targets steps).find? fun label => (body.place? label).isNone := by
  rw [Body.fst_patch, h.holes, map_label_holesFrom]

theorem Draft.fst_finish (h : Draft steps body) :
    body.finish.1 = verdict body.rebound body.place? steps := by
  obtain ⟨code, -, hcode, hdone⟩ := h.patched
  unfold verdict
  rw [← h.fst_patch]
  cases hrebound : body.rebound with
  | some label => rw [finish_of_rebound hrebound]
  | none =>
    cases hpatch : (patch body.place? body.code body.holes.toList).1 with
    | some label => rw [finish_of_missing hrebound hpatch]
    | none =>
      rw [finish_of_patched hrebound hpatch, hcode, List.nil_append, hdone hpatch]

theorem unbound_iff : body.Unbound ↔ body.rebound = none ∧
    ∃ label, (patch body.place? body.code body.holes.toList).1 = some label := by
  constructor
  · rintro ⟨label, hfails⟩
    cases hrebound : body.rebound with
    | some label =>
      rw [finish_of_rebound hrebound] at hfails
      cases hfails
    | none =>
      cases hpatch : (patch body.place? body.code body.holes.toList).1 with
      | some label => exact ⟨rfl, label, rfl⟩
      | none =>
        rw [finish_of_patched hrebound hpatch] at hfails
        cases hfails
  · rintro ⟨hrebound, label, hpatch⟩
    exact ⟨label, by rw [finish_of_missing hrebound hpatch]⟩

theorem Draft.of_unbound (h : Draft steps body) (hunbound : body.Unbound) :
    ∃ code, body.finish.2 = { body with code } ∧ Draft steps { body with code } := by
  obtain ⟨hrebound, label, hpatch⟩ := unbound_iff.1 hunbound
  obtain ⟨code, hfills, hcode, -⟩ := h.patched
  have hfinish := finish_of_missing hrebound hpatch
  exact ⟨_, congrArg Prod.snd hfinish, hcode ▸ hfills, h.holes⟩

theorem snd_finish (h : ¬ body.Unbound) : body.finish.2 = empty := by
  cases hrebound : body.rebound with
  | some label => rw [finish_of_rebound hrebound]
  | none =>
    cases hpatch : (patch body.place? body.code body.holes.toList).1 with
    | some label => exact absurd (unbound_iff.2 ⟨hrebound, label, hpatch⟩) h
    | none => rw [finish_of_patched hrebound hpatch]

structure Alike (body body' : Body) : Prop where
  drafts : ∃ steps, Draft steps body ∧ Draft steps body'
  places : body'.places = body.places
  rebound : body'.rebound = body.rebound

theorem alike_empty : Alike empty empty := ⟨⟨[], draft_empty, draft_empty⟩, rfl, rfl⟩

namespace Alike

theorem place?_eq (h : Alike body body') : body'.place? = body.place? := by
  funext label
  rw [place?, place?, h.places]

theorem size_eq (h : Alike body body') : body'.size = body.size := by
  obtain ⟨steps, hbody, hbody'⟩ := h.drafts
  rw [hbody.size_eq, hbody'.size_eq]

theorem fst_finish (h : Alike body body') : body'.finish.1 = body.finish.1 := by
  obtain ⟨steps, hbody, hbody'⟩ := h.drafts
  rw [hbody.fst_finish, hbody'.fst_finish, h.rebound, h.place?_eq]

theorem unbound_iff (h : Alike body body') : body'.Unbound ↔ body.Unbound := by
  simp only [Unbound, h.fst_finish]

theorem snd_finish (h : Alike body body') : Alike body.finish.2 body'.finish.2 := by
  obtain ⟨steps, hbody, hbody'⟩ := h.drafts
  by_cases hunbound : body.Unbound
  · obtain ⟨code, hfinish, hdraft⟩ := hbody.of_unbound hunbound
    obtain ⟨code', hfinish', hdraft'⟩ := hbody'.of_unbound (h.unbound_iff.2 hunbound)
    rw [hfinish, hfinish']
    exact ⟨⟨steps, hdraft, hdraft'⟩, h.places, h.rebound⟩
  · rw [Body.snd_finish hunbound, Body.snd_finish (mt h.unbound_iff.1 hunbound)]
    exact alike_empty

theorem places_perform (h : Alike body body') (hstep : step ≠ .finish) :
    (body'.perform step).2.places = (body.perform step).2.places ∧
      (body'.perform step).2.rebound = (body.perform step).2.rebound := by
  cases step with
  | newLabel => simp [Body.perform, newLabel, h.places, h.rebound]
  | bind label =>
    simp only [Body.perform, bind, h.place?_eq, h.size_eq, h.places, h.rebound]
    cases body.place? label <;> exact ⟨rfl, rfl⟩
  | emit instr => exact ⟨h.places, h.rebound⟩
  | jump kind label => exact ⟨h.places, h.rebound⟩
  | finish => exact absurd rfl hstep

theorem perform (h : Alike body body') (step : Step) :
    Alike (body.perform step).2 (body'.perform step).2 := by
  by_cases hstep : step = .finish
  · subst hstep
    exact h.snd_finish
  · obtain ⟨steps, hbody, hbody'⟩ := h.drafts
    obtain ⟨hplaces, hrebound⟩ := h.places_perform hstep
    exact ⟨⟨_, hbody.perform hstep, hbody'.perform hstep⟩, hplaces, hrebound⟩

theorem fst_perform (h : Alike body body') (step : Step) :
    (body'.perform step).1 = (body.perform step).1 := by
  cases step with
  | newLabel => simp [Body.perform, newLabel, h.places]
  | finish => exact congrArg Answer.finished h.fst_finish
  | _ => rfl

theorem answers_eq (h : Alike body body') (steps : List Step) :
    body'.answers steps = body.answers steps := by
  induction steps generalizing body body' with
  | nil => rfl
  | cons step steps ih =>
    have hnext := h.perform step
    simp only [answers, h.fst_perform step, hnext.size_eq, ih hnext]

end Alike

theorem Draft.alike_finish (h : Draft steps body) (hunbound : body.Unbound) :
    Alike body body.finish.2 := by
  obtain ⟨code, hfinish, hdraft⟩ := h.of_unbound hunbound
  rw [hfinish]
  exact ⟨⟨steps, h, hdraft⟩, rfl, rfl⟩

section Runs

variable (body) (first second : List Step)

@[simp] theorem after_append : body.after (first ++ second) = (body.after first).after second :=
  List.foldl_append

theorem after_concat (step : Step) :
    body.after (first ++ [step]) = ((body.after first).perform step).2 :=
  body.after_append first [step]

@[simp] theorem length_answers : (body.answers first).length = first.length := by
  induction first generalizing body with
  | nil => rfl
  | cons step steps ih => simp [answers, ih]

@[simp] theorem answers_append :
    body.answers (first ++ second) = body.answers first ++ (body.after first).answers second := by
  induction first generalizing body with
  | nil => rfl
  | cons step steps ih => simp [answers, ih, after]

end Runs

namespace Kept

theorem of_append {more : List Step} (h : Kept start (steps ++ more)) : Kept start steps :=
  fun before later hsplit => h before (later ++ more) (by rw [hsplit]; simp)

theorem draft (h : Kept empty steps) : Draft steps (empty.after steps) := by
  induction steps using List.reverseRecOn with
  | nil => exact draft_empty
  | append_singleton steps step ih =>
    have hdraft := ih h.of_append
    rw [after_concat]
    by_cases hstep : step = .finish
    · subst hstep
      obtain ⟨code, hfinish, hkept⟩ := hdraft.of_unbound (h steps [] rfl)
      simp only [Body.perform, hfinish]
      exact hkept.add .finish (List.append_nil _).symm (List.append_nil _).symm
    · exact hdraft.perform hstep

end Kept

theorem Anew.after_eq (h : Anew steps) : empty.after steps = empty := by
  rcases h with rfl | ⟨before, rfl, hreset⟩
  · rfl
  · rw [after_concat]
    exact snd_finish hreset

theorem exists_kept (steps : List Step) : ∃ earlier kept, steps = earlier ++ kept ∧
    Anew earlier ∧ Kept (empty.after earlier) kept := by
  induction steps using List.reverseRecOn with
  | nil => exact ⟨[], [], rfl, .inl rfl, fun before later h => by simp at h⟩
  | append_singleton steps step ih =>
    obtain ⟨earlier, kept, rfl, hanew, hkept⟩ := ih
    by_cases hreset : step = .finish ∧ ¬ (empty.after (earlier ++ kept)).Unbound
    · obtain ⟨rfl, hreset⟩ := hreset
      exact ⟨_, [], (List.append_nil _).symm, .inr ⟨_, rfl, hreset⟩,
        fun before later h => by simp at h⟩
    · refine ⟨earlier, kept ++ [step], List.append_assoc _ _ _, hanew, fun before later h => ?_⟩
      rcases concat_eq_append_cons h with ⟨rfl, rfl⟩ | ⟨rest, hrest⟩
      · rw [after_append] at hreset
        exact Classical.not_not.1 fun hbound => hreset ⟨rfl, hbound⟩
      · exact hkept before rest hrest

theorem exists_draft (steps : List Step) : ∃ kept, Draft kept (empty.after steps) := by
  obtain ⟨earlier, kept, rfl, hanew, hkept⟩ := exists_kept steps
  rw [after_append]
  rw [hanew.after_eq] at hkept ⊢
  exact ⟨kept, hkept.draft⟩

/-- No answer, nor any offset, shows that a `finish` has failed for want of a place. -/
theorem answers_eraseIdx (before later : List Step) (h : (empty.after before).Unbound) :
    (empty.answers (before ++ .finish :: later)).eraseIdx before.length =
      empty.answers (before ++ later) := by
  obtain ⟨kept, hdraft⟩ := exists_draft before
  have hlater := (hdraft.alike_finish h).answers_eq later
  rw [answers_append, answers_append, answers,
    List.eraseIdx_append_of_length_le (Nat.le_of_eq (length_answers _ _))]
  simp [Body.perform, hlater]

end TieredVM.Body
