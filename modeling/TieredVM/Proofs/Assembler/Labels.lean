import TieredVM.Proofs.Assembler.Draft
/-!
What a builder knows of its labels. Main statements: `finish` answers with the first label that was
bound again, or else with the label of the first jump that lacks a place, or else with the code; it
shows no trace if it lacked a place, and leaves a new builder otherwise.
-/
set_option autoImplicit false

namespace TieredVM.Body

def Step.labels : Step → List Nat
  | bind label | jump _ label => [label]
  | _ => []

/-- Labels are used only after they were made, and not beyond the `finish` that empties the
builder. -/
def Lawful : Body → List Step → Prop
  | _, [] => True
  | body, step :: rest =>
    (∀ label ∈ step.labels, label < body.places.size) ∧ (body.perform step).2.Lawful rest

instance decidableLawful : (body : Body) → (steps : List Step) → Decidable (body.Lawful steps)
  | _, [] => .isTrue trivial
  | body, step :: rest => @instDecidableAnd _ _ _ (decidableLawful (body.perform step).2 rest)

/-- The place is where the builder stood when the label was first bound. -/
def BoundAt (start : Body) (steps : List Step) (label place : Nat) : Prop :=
  ∃ before later, steps = before ++ .bind label :: later ∧ label ∉ bindings before ∧
    (start.after before).size = place

/-- The label is the first that is bound a second time. -/
def Rebinds (steps : List Step) (label : Nat) : Prop :=
  ∃ before later, bindings steps = before ++ label :: later ∧ before.Nodup ∧ label ∈ before

/-- The label is that of the first jump to a label that is not bound. -/
def Dangles (steps : List Step) (label : Nat) : Prop :=
  ∃ before later, targets steps = before ++ label :: later ∧
    (∀ other ∈ before, other ∈ bindings steps) ∧ label ∉ bindings steps

inductive Finishes (start : Body) (steps : List Step) : Except BuildError (List UInt8) → Prop where
  | rebound {label : Nat} :
      Rebinds steps label → Finishes start steps (.error (.labelRebound label))
  | unbound {label : Nat} : (bindings steps).Nodup → Dangles steps label →
      Finishes start steps (.error (.unboundLabel label))
  | assembled {place : Nat → Nat} : (bindings steps).Nodup →
      (∀ label ∈ targets steps, BoundAt start steps label (place label)) →
      Finishes start steps (.ok ((instructions place steps).flatMap Instruction.encode))

structure Labelled (start : Body) (steps : List Step) : Prop where
  bound : ∀ label, ((start.after steps).place? label).isSome ↔ label ∈ bindings steps
  places : ∀ label place, (start.after steps).place? label = some place →
    BoundAt start steps label place
  fresh : (start.after steps).rebound = none → (bindings steps).Nodup
  rebinds : ∀ label, (start.after steps).rebound = some label → Rebinds steps label

variable {start body : Body} {step : Step} {steps earlier : List Step}

theorem lawful_append {first second : List Step} :
    body.Lawful (first ++ second) ↔ body.Lawful first ∧ (body.after first).Lawful second := by
  induction first generalizing body with
  | nil => simp [Lawful, after]
  | cons step first ih => simp [Lawful, ih, after, and_assoc]

theorem lawful_singleton :
    body.Lawful [step] ↔ ∀ label ∈ step.labels, label < body.places.size := by
  simp [Lawful]

theorem bindings_concat (steps : List Step) (step : Step) :
    bindings (steps ++ [step]) = bindings steps ++ step.binding?.toList := by
  cases h : step.binding? <;> simp [bindings, h]

section Bind

variable {label : Nat}

theorem bind_of_some {place : Nat} (h : body.place? label = some place) :
    body.bind label = { body with rebound := body.rebound <|> some label } := by
  simp only [bind, h]

theorem bind_of_none (h : body.place? label = none) : body.bind label =
    { body with places := body.places.setIfInBounds label (some body.size) } := by
  simp only [bind, h]

theorem place?_bind_of_none (hlabel : label < body.places.size) (h : body.place? label = none)
    (other : Nat) : (body.bind label).place? other =
      if label = other then some body.size else body.place? other := by
  rw [bind_of_none h, place?, place?]
  by_cases heq : label = other
  · subst heq
    simp [hlabel]
  · simp [heq]

end Bind

theorem BoundAt.concat {label place : Nat} (h : BoundAt start steps label place) (step : Step) :
    BoundAt start (steps ++ [step]) label place := by
  obtain ⟨before, later, rfl, hfirst, hplace⟩ := h
  exact ⟨before, later ++ [step], by simp, hfirst, hplace⟩

theorem Rebinds.concat {label : Nat} (h : Rebinds steps label) (step : Step) :
    Rebinds (steps ++ [step]) label := by
  obtain ⟨before, later, hsteps, hnodup, hmem⟩ := h
  exact ⟨before, later ++ step.binding?.toList, by simp [bindings_concat, hsteps], hnodup, hmem⟩

theorem labelled_nil : Labelled empty [] where
  bound label := by simp [after, empty, place?, bindings]
  places label place h := by simp [after, empty, place?] at h
  fresh _ := List.nodup_nil
  rebinds label h := by cases h

namespace Labelled

theorem keep (h : Labelled start steps) (hstep : step.binding? = none)
    (hplaces : (start.after (steps ++ [step])).place? = (start.after steps).place?)
    (hrebound : (start.after (steps ++ [step])).rebound = (start.after steps).rebound) :
    Labelled start (steps ++ [step]) := by
  have hbindings : bindings (steps ++ [step]) = bindings steps := by
    rw [bindings_concat, hstep, Option.toList_none, List.append_nil]
  refine ⟨?_, ?_, ?_, ?_⟩
  · simpa only [hplaces, hbindings] using h.bound
  · intro label place hplace
    exact (h.places label place (hplaces ▸ hplace)).concat step
  · simpa only [hrebound, hbindings] using h.fresh
  · intro label hlabel
    exact (h.rebinds label (hrebound ▸ hlabel)).concat step

theorem bind_again (h : Labelled start steps) {label place : Nat}
    (hplace : (start.after steps).place? label = some place) :
    Labelled start (steps ++ [.bind label]) := by
  have hbound : label ∈ bindings steps := (h.bound label).1 (by rw [hplace]; rfl)
  have hbindings : bindings (steps ++ [.bind label]) = bindings steps ++ [label] :=
    bindings_concat steps _
  have hafter : start.after (steps ++ [.bind label]) = { start.after steps with
      rebound := (start.after steps).rebound <|> some label } :=
    (after_concat _ _ _).trans (bind_of_some hplace)
  refine ⟨fun other => ?_, fun other place hother => ?_, fun hnone => ?_, fun other hother => ?_⟩
  · have hsame : (start.after (steps ++ [.bind label])).place? other =
        (start.after steps).place? other := by rw [hafter]; rfl
    rw [hsame, h.bound, hbindings, List.mem_append, List.mem_singleton]
    exact ⟨.inl, fun hmem => hmem.elim id fun heq => heq ▸ hbound⟩
  · rw [hafter] at hother
    exact (h.places other place hother).concat _
  · rw [hafter] at hnone
    cases hrebound : (start.after steps).rebound <;> simp [hrebound] at hnone
  · rw [hafter] at hother
    cases hrebound : (start.after steps).rebound with
    | none =>
      obtain rfl : label = other := by simpa [hrebound] using hother
      exact ⟨bindings steps, [], hbindings, h.fresh hrebound, hbound⟩
    | some first =>
      obtain rfl : first = other := by simpa [hrebound] using hother
      exact (h.rebinds first hrebound).concat _

theorem bind_first (h : Labelled start steps) {label : Nat}
    (hlabel : label < (start.after steps).places.size)
    (hplace : (start.after steps).place? label = none) :
    Labelled start (steps ++ [.bind label]) := by
  have hfree : label ∉ bindings steps := fun hmem => by
    have hsome := (h.bound label).2 hmem
    rw [hplace] at hsome
    cases hsome
  have hbindings : bindings (steps ++ [.bind label]) = bindings steps ++ [label] :=
    bindings_concat steps _
  have hafter : start.after (steps ++ [.bind label]) = (start.after steps).bind label :=
    after_concat _ _ _
  have hplaces := hafter ▸ place?_bind_of_none hlabel hplace
  have hrebound : (start.after (steps ++ [.bind label])).rebound = (start.after steps).rebound := by
    rw [hafter, bind_of_none hplace]
  refine ⟨fun other => ?_, fun other place hother => ?_, fun hnone => ?_, fun other hother => ?_⟩
  · rw [hplaces, hbindings, List.mem_append, List.mem_singleton, ← h.bound other]
    split
    · rename_i heq
      simp [heq]
    · rename_i hne
      simp [Ne.symm hne]
  · rw [hplaces] at hother
    split at hother
    · rename_i heq
      subst heq
      exact ⟨steps, [], rfl, hfree, Option.some.inj hother⟩
    · exact (h.places other place hother).concat _
  · rw [hrebound] at hnone
    rw [hbindings]
    exact (List.perm_append_singleton label _).nodup_iff.2
      (List.nodup_cons.2 ⟨hfree, h.fresh hnone⟩)
  · rw [hrebound] at hother
    exact (h.rebinds other hother).concat _

theorem perform (h : Labelled start steps) (hstep : step ≠ .finish)
    (hlawful : (start.after steps).Lawful [step]) : Labelled start (steps ++ [step]) := by
  have hafter := start.after_concat steps step
  cases step with
  | newLabel => exact h.keep rfl (hafter ▸ place?_newLabel _) (hafter ▸ rfl)
  | bind label =>
    cases hplace : (start.after steps).place? label with
    | none => exact h.bind_first (lawful_singleton.1 hlawful label List.mem_cons_self) hplace
    | some place => exact h.bind_again hplace
  | emit instr => exact h.keep rfl (hafter ▸ rfl) (hafter ▸ rfl)
  | jump kind label => exact h.keep rfl (hafter ▸ rfl) (hafter ▸ rfl)
  | finish => exact absurd rfl hstep

theorem finishes (h : Labelled start steps) (hdraft : Draft steps (start.after steps)) :
    Finishes start steps (start.after steps).finish.1 := by
  rw [hdraft.fst_finish]
  unfold verdict
  cases hrebound : (start.after steps).rebound with
  | some label => exact .rebound (h.rebinds label hrebound)
  | none =>
    cases hfind : (targets steps).find? fun label => ((start.after steps).place? label).isNone with
    | some label =>
      obtain ⟨hnone, before, later, htargets, hbefore⟩ := List.find?_eq_some_iff_append.1 hfind
      refine .unbound (h.fresh hrebound) ⟨before, later, htargets, fun other hother => ?_, ?_⟩
      · rw [← h.bound]
        simpa using hbefore other hother
      · rw [← h.bound]
        simpa using hnone
    | none =>
      refine .assembled (h.fresh hrebound) fun label hlabel => h.places label _ ?_
      have hsome := List.find?_eq_none.1 hfind label hlabel
      rw [Bool.not_eq_true, Option.isNone_eq_false_iff, Option.isSome_iff_exists] at hsome
      obtain ⟨place, hplace⟩ := hsome
      rw [hplace, Option.getD_some]

end Labelled

theorem Kept.labelled (h : Kept empty steps) (hlawful : empty.Lawful steps) :
    Labelled empty steps := by
  induction steps using List.reverseRecOn with
  | nil => exact labelled_nil
  | append_singleton steps step ih =>
    obtain ⟨hbefore, hstep'⟩ := lawful_append.1 hlawful
    have hlabelled := ih h.of_append hbefore
    by_cases hstep : step = .finish
    · subst hstep
      obtain ⟨code, hfinish, -⟩ := h.of_append.draft.of_unbound (h steps [] rfl)
      have hafter : empty.after (steps ++ [.finish]) = { empty.after steps with code } :=
        (after_concat _ _ _).trans hfinish
      exact hlabelled.keep rfl (hafter ▸ rfl) (hafter ▸ rfl)
    · exact hlabelled.perform hstep hstep'

theorem lawful_kept (hanew : Anew earlier) (h : empty.Lawful (earlier ++ steps)) :
    empty.Lawful steps := by
  have hsteps := (lawful_append.1 h).2
  rwa [hanew.after_eq] at hsteps

/-- Every `finish` answers for the steps since the last reset. If a label lacked its place, nothing
shows that it was tried, and otherwise a new builder is left. -/
theorem finish_answers {before later : List Step} (h : empty.Lawful (before ++ .finish :: later)) :
    (∃ earlier kept, before = earlier ++ kept ∧ Anew earlier ∧ Kept (empty.after earlier) kept ∧
      Finishes (empty.after earlier) kept (empty.after before).finish.1) ∧
    ((empty.after before).Unbound →
      (empty.answers (before ++ .finish :: later)).eraseIdx before.length =
        empty.answers (before ++ later)) ∧
    (¬ (empty.after before).Unbound →
      empty.answers (before ++ .finish :: later) = empty.answers before ++
        (.finished (empty.after before).finish.1, 0) :: empty.answers later) := by
  refine ⟨?_, answers_eraseIdx before later, fun hreset => ?_⟩
  · obtain ⟨earlier, kept, rfl, hanew, hkept⟩ := exists_kept before
    refine ⟨earlier, kept, rfl, hanew, hkept, ?_⟩
    have hlawful := lawful_kept hanew (lawful_append.1 h).1
    rw [after_append]
    rw [hanew.after_eq] at hkept ⊢
    exact (hkept.labelled hlawful).finishes hkept.draft
  · rw [answers_append, answers]
    simp only [Body.perform, snd_finish hreset]
    rfl

def halfPlaced : List Step :=
  [.newLabel, .newLabel, .jump .always 0, .jump (.when .less) 1, .bind 0]

def retried : List Step := [.bind 1, .emit .halt, .finish, .newLabel, .bind 0, .bind 0, .finish]

theorem finish_answers_halfPlaced : empty.Lawful (halfPlaced ++ .finish :: retried) ∧
    (empty.after halfPlaced).finish.1 = .error (.unboundLabel 1) ∧
    (empty.after halfPlaced).finish.2 ≠ empty.after halfPlaced ∧
    (empty.answers (halfPlaced ++ .finish :: retried)).eraseIdx 5 =
      empty.answers (halfPlaced ++ retried) := by
  have hlawful : empty.Lawful (halfPlaced ++ .finish :: retried) := by decide +kernel
  have hunbound : (empty.after halfPlaced).finish.1 = .error (.unboundLabel 1) := by decide +kernel
  exact ⟨hlawful, hunbound, by decide +kernel, (finish_answers hlawful).2.1 ⟨1, hunbound⟩⟩

end TieredVM.Body
