import TieredVM.Proofs.Assembler.Labels
import TieredVM.Proofs.Instruction.Listing
import TieredVM.Proofs.Word
/-!
What finished code reads as. Main statement: a body whose labels are bound once, as far as jumps use
them, becomes code that is read as the instructions of its steps, each jump to a label leading to
where the label was bound, and that is where an instruction starts or the code ends.
-/
set_option autoImplicit false

namespace TieredVM.Body

open Listing (ofCode_instructions)

variable {start : Body} {earlier steps : List Step} {place : Nat → Nat}

theorem instructions_append (place : Nat → Nat) (first second : List Step) :
    instructions place (first ++ second) = instructions place first ++ instructions place second :=
  List.filterMap_append

theorem Finishes.exists_instructions {result : Except BuildError (List UInt8)}
    (h : Finishes start steps result) (hbindings : (bindings steps).Nodup)
    (htargets : ∀ label ∈ targets steps, label ∈ bindings steps) :
    ∃ place : Nat → Nat, result = .ok ((instructions place steps).flatMap Instruction.encode) ∧
      ∀ label ∈ targets steps, BoundAt start steps label (place label) := by
  cases h with
  | rebound hagain =>
    obtain ⟨before, later, hsplit, -, hmem⟩ := hagain
    rw [hsplit, List.nodup_append] at hbindings
    exact absurd rfl (hbindings.2.2 _ hmem _ List.mem_cons_self)
  | unbound _ hdangles =>
    obtain ⟨before, later, hsplit, -, hfree⟩ := hdangles
    exact absurd (htargets _ (hsplit ▸ List.mem_append_right _ List.mem_cons_self)) hfree
  | assembled _ hplace => exact ⟨_, rfl, hplace⟩

theorem Kept.mem_offsets_or_end (h : Kept empty steps) {label offset : Nat}
    (hbound : BoundAt empty steps label offset) (place : Nat → Nat) :
    offset ∈ (Listing.ofInstructions 0 (instructions place steps)).offsets ∨
      offset = length steps := by
  obtain ⟨before, later, rfl, -, rfl⟩ := hbound
  have hnone : instructions place (.bind label :: later) = instructions place later :=
    instructions_cons place _ later
  have hsize : (empty.after before).size = length before := h.of_append.draft.size_eq
  have hnext := Listing.mem_offsets_append 0 (instructions place before) (instructions place later)
  rw [length_flatMap_instructions, Nat.zero_add, ← hsize] at hnext
  rw [instructions_append, hnone]
  refine hnext.imp_right fun hend => ?_
  have hlater := length_flatMap_instructions place later
  rw [hend] at hlater
  rw [hsize, length_append, length_cons, ← hlater]
  rfl

/-- A body in which no label is bound twice and none that a jump uses stays unbound becomes code
that is read as its instructions, on a new builder and on one that has finished other bodies. -/
theorem Anew.finish_reads (hanew : Anew earlier) (hlawful : (empty.after earlier).Lawful steps)
    (hfinish : .finish ∉ steps) (hbindings : (bindings steps).Nodup)
    (htargets : ∀ label ∈ targets steps, label ∈ bindings steps) :
    ∃ code place, ((empty.after earlier).after steps).finish = (.ok code, empty) ∧
      (Listing.ofCode code.toArray).error? = none ∧
      (Listing.ofCode code.toArray).items.map (·.2) = instructions place steps ∧
      ∀ label ∈ targets steps, BoundAt (empty.after earlier) steps label (place label) ∧
        (place label ∈ (Listing.ofCode code.toArray).offsets ∨ place label = code.length) ∧
        (code.length < 2 ^ 63 →
          Word.toIndex? (Word.ofIndex (place label)) = some (place label)) := by
  rw [hanew.after_eq] at hlawful ⊢
  have hkept : Kept empty steps := fun before later hsplit =>
    absurd (hsplit ▸ List.mem_append_right _ List.mem_cons_self) hfinish
  obtain ⟨place, hresult, hplaces⟩ :=
    ((hkept.labelled hlawful).finishes hkept.draft).exists_instructions hbindings htargets
  have hreset : ¬ (empty.after steps).Unbound := by
    rintro ⟨label, hfails⟩
    rw [hresult] at hfails
    cases hfails
  refine ⟨_, place, Prod.ext hresult (snd_finish hreset), ?_, ?_, fun label hlabel => ?_⟩
  · rw [ofCode_instructions, Listing.error?_ofInstructions]
  · rw [ofCode_instructions, Listing.map_snd_items_ofInstructions]
  · have hleads := hkept.mem_offsets_or_end (hplaces label hlabel) place
    have hlength := length_flatMap_instructions place steps
    rw [ofCode_instructions, hlength]
    refine ⟨hplaces label hlabel, hleads, fun hsmall => Word.toIndex?_ofIndex ?_⟩
    rcases hleads with hmem | hend
    · obtain ⟨instr, hitem⟩ := Listing.mem_offsets_iff.1 hmem
      have hlt := Listing.lt_of_mem_items hitem
      omega
    · omega

/-- A body that is given up because its label is bound twice. -/
def twiceBound : List Step := [.newLabel, .bind 0, .emit .nop, .bind 0, .finish]

def looping : List Step :=
  [.newLabel, .newLabel, .jump .always 1, .bind 0, .emit (.jump 77), .jump (.when .greater) 0,
    .bind 1]

theorem finish_reads_looping : Anew twiceBound ∧ (empty.after twiceBound).Lawful looping ∧
    ∃ (code : List UInt8) (place : Nat → Nat),
      ((empty.after twiceBound).after looping).finish = (.ok code, empty) ∧
      (Listing.ofCode code.toArray).items =
        [(0, .jump 27), (9, .jump 77), (18, .branch .greater 9)] ∧
      BoundAt (empty.after twiceBound) looping 1 (place 1) ∧ place 1 = code.length := by
  have hrebound : (empty.after twiceBound.dropLast).finish.1 = .error (.labelRebound 0) := by
    decide +kernel
  have hanew : Anew twiceBound := by
    refine .inr ⟨twiceBound.dropLast, rfl, ?_⟩
    rintro ⟨label, hfails⟩
    rw [hrebound] at hfails
    cases hfails
  have hlawful : (empty.after twiceBound).Lawful looping := by decide +kernel
  obtain ⟨code, place, hfinish, -, hreads, hplaces⟩ :=
    hanew.finish_reads hlawful (by decide) (by decide) (by decide)
  have hcode : ((empty.after twiceBound).after looping).finish.1 =
      .ok ([.jump 27, .jump 77, .branch .greater 9].flatMap Instruction.encode) := by
    decide +kernel
  rw [hfinish] at hcode
  obtain rfl := Except.ok.inj hcode
  obtain ⟨hbound, -, hindex⟩ := hplaces 1 (by decide)
  have hitems : (Listing.ofCode ([.jump 27, .jump 77, .branch .greater 9].flatMap
      Instruction.encode).toArray).items =
        [(0, .jump 27), (9, .jump 77), (18, .branch .greater 9)] := by decide +kernel
  rw [hitems] at hreads
  have htarget : (27 : Int64) = Word.ofIndex (place 1) :=
    Instruction.jump.inj (List.cons.inj hreads).1
  have hplace := hindex (by decide +kernel)
  rw [← htarget] at hplace
  exact ⟨hanew, hlawful, _, place, hfinish, hitems, hbound, (Option.some.inj hplace).symm⟩

end TieredVM.Body
