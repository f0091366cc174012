import TieredVM.Proofs.Verify.Reordering
set_option autoImplicit false

namespace TieredVM.Image

inductive SameVerdict :
    Except (List VerifyError) Program → Except (List VerifyError) Program → Prop where
  | accepted (program : Program) : SameVerdict (.ok program) (.ok program)
  | rejected {errors errors' : List VerifyError} :
      errors.Perm errors' → SameVerdict (.error errors) (.error errors')

variable {image image' : Image}

theorem Reorders.symm (h : image.Reorders image') : image'.Reorders image :=
  ⟨h.name.symm, h.functions.symm, h.strings.symm⟩

theorem Reorders.distinct (h : image.Reorders image') (hdistinct : image.Distinct) :
    image'.Distinct where
  functions := (h.functions.map (·.id)).nodup_iff.2 hdistinct.functions
  strings := (h.strings.map (·.id)).nodup_iff.2 hdistinct.strings

theorem verify_eq_error {errors : List VerifyError} (h : image.verify = .error errors) :
    errors = image.stackErrors ++ image.linkErrors := by
  simp only [verify] at h
  split at h
  · cases h
  · exact (Except.error.inj h).symm

theorem Reorders.errors_perm (h : image.Reorders image') (hdistinct : image.Distinct) :
    (image.stackErrors ++ image.linkErrors).Perm (image'.stackErrors ++ image'.linkErrors) :=
  h.stackErrors_perm.symm.append (h.linkErrors_perm hdistinct.functions).symm

/-- The order of the entries makes no difference to the verdict. -/
theorem Reorders.verify_sameVerdict (h : image.Reorders image') (hdistinct : image.Distinct) :
    SameVerdict image.verify image'.verify := by
  cases hverify : image.verify with
  | ok program =>
    rw [h.verify_eq_ok_of_distinct hdistinct hverify]
    exact .accepted program
  | error errors =>
    cases hverify' : image'.verify with
    | ok program =>
      have hback := h.symm.verify_eq_ok_of_distinct (h.distinct hdistinct) hverify'
      rw [hverify] at hback
      cases hback
    | error errors' =>
      rw [verify_eq_error hverify, verify_eq_error hverify']
      exact .rejected (h.errors_perm hdistinct)

def reversed (image : Image) : Image :=
  { image with functions := image.functions.reverse, strings := image.strings.reverse }

theorem reorders_reversed (image : Image) : image.Reorders image.reversed :=
  ⟨rfl, image.functions.reverse_perm, image.strings.reverse_perm⟩

def faulty : Image where
  name := "faulty"
  functions := [
    { name := "empty", id := 4, argCount := 0
      code := (List.flatMap Instruction.encode [.pop, .halt]).toArray },
    { name := "main", id := 0, argCount := 0
      code := (List.flatMap Instruction.encode [.call 7 0, .printString 2, .halt]).toArray },
    { name := "early", id := 9, argCount := 1
      code := (List.flatMap Instruction.encode [.pushArg 1, .pushArg 0, .ret]).toArray }]
  strings := [⟨3, [0x61]⟩, ⟨1, [0x62]⟩]

def faultyErrors : List VerifyError := [
  ⟨"empty", .stackUnderflow 0⟩, ⟨"early", .returnDepth 18 2⟩, ⟨"main", .unknownFunction 0 7⟩,
  ⟨"main", .unknownString 17 2⟩, ⟨"early", .argIndexOutOfRange 0 1 1⟩]

def faultyErrorsReversed : List VerifyError := [
  ⟨"early", .returnDepth 18 2⟩, ⟨"empty", .stackUnderflow 0⟩, ⟨"early", .argIndexOutOfRange 0 1 1⟩,
  ⟨"main", .unknownFunction 0 7⟩, ⟨"main", .unknownString 17 2⟩]

theorem verify_sameVerdict_faulty :
    (faulty.Distinct ∧ faulty.verify = .error faultyErrors ∧
      faulty.reversed.verify = .error faultyErrorsReversed ∧
      SameVerdict faulty.verify faulty.reversed.verify) ∧
    (swapped.Distinct ∧ swapped.verify = .ok swappedProgram ∧
      SameVerdict swapped.verify swapped.reversed.verify) := by
  have hfaulty : faulty.Distinct := ⟨by decide, by decide⟩
  have hswapped : swapped.Distinct := ⟨by decide, by decide⟩
  refine ⟨⟨hfaulty, ?_, ?_, (reorders_reversed faulty).verify_sameVerdict hfaulty⟩, hswapped,
    verify_swapped, (reorders_reversed swapped).verify_sameVerdict hswapped⟩
  · decide +kernel
  · decide +kernel

end TieredVM.Image
