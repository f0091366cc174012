import TieredVM.Proofs.Verify.Reordering
/-!
Where the references in a verified program lead. An image finds what an id stands for by searching
for the id, and a program by counting. Both find the same if the ids number the tables, as they do
in every image that a file holds, and need not otherwise.
-/
set_option autoImplicit false

namespace TieredVM

def Program.Contains (program : Program) (instr : Instruction) : Prop :=
  ∃ function ∈ program.functions, ∃ offset, (offset, instr) ∈ (Listing.ofCode function.code).items

namespace Image

/-- The callee of every call is the entry which the image lists under its id, and whose arguments
are passed. -/
def CallsReach (image : Image) (program : Program) : Prop :=
  ∀ callee args, program.Contains (.call callee args) → ∃ id entry function,
    Word.toIndex? callee = some id ∧ image.function? id = some entry ∧
      args = Word.ofIndex entry.argCount ∧
      program.function? id = some function ∧ function.toEntry = entry

/-- The text that is printed is what the image lists under its id. -/
def StringsReach (image : Image) (program : Program) : Prop :=
  ∀ string, program.Contains (.printString string) → ∃ id, ∃ entry ∈ image.strings,
    Word.toIndex? string = some id ∧ entry.id = id ∧ program.string? id = some entry.bytes

variable {image : Image} {program : Program}

theorem perm_functions_of_verify (h : image.verify = .ok program) :
    program.functions.toList.Perm
      (image.functions.filterMap fun entry => entry.check.toOption) := by
  obtain ⟨-, -, rfl⟩ := verify_eq_ok_iff.1 h
  exact List.mergeSort_perm _ _

theorem mem_functions_of_verify (h : image.verify = .ok program) {function : Function} :
    function ∈ program.functions ↔ ∃ entry ∈ image.functions, entry.check = .ok function := by
  rw [← Array.mem_toList_iff, (perm_functions_of_verify h).mem_iff, List.mem_filterMap]
  simp only [toOption_eq_some_iff]

theorem perm_ids_of_verify (h : image.verify = .ok program) :
    (program.functions.toList.map (·.id)).Perm (image.functions.map (·.id)) := by
  have hperm := (perm_functions_of_verify h).map (·.id)
  rwa [map_id_checked (verify_eq_ok_iff.1 h).1] at hperm

theorem dense_iff_of_verify (h : image.verify = .ok program) :
    program.Dense ↔ (image.functions.map (·.id)).Perm (List.range image.functions.length) := by
  constructor
  · intro hdense
    have hids : program.functions.toList.map (·.id) = List.range program.functions.size := by
      apply List.ext_getElem
      · simp
      · intro k hk _
        have hlt : k < program.functions.size := by simpa using hk
        simpa using hdense k _ (Array.getElem?_eq_getElem hlt)
    have hperm := perm_ids_of_verify h
    rw [hids, size_functions_of_verify h] at hperm
    exact hperm.symm
  · intro hids
    exact Program.dense_of_verify hids h

theorem linkDefect?_of_contains (h : image.verify = .ok program) {instr : Instruction}
    (hcontains : program.Contains instr) :
    ∃ entry offset, image.linkDefect? entry offset instr = none := by
  obtain ⟨function, hfunction, offset, hitem⟩ := hcontains
  obtain ⟨entry, hentry, hcheck⟩ := (mem_functions_of_verify h).1 hfunction
  obtain ⟨summary, -, rfl⟩ := FunctionEntry.check_eq_ok_iff.1 hcheck
  exact ⟨entry, offset, linkDefect?_eq_none (verify_eq_ok_iff.1 h).2.1 hentry hitem⟩

theorem callsReach_of_verify (h : image.verify = .ok program)
    (hids : (image.functions.map (·.id)).Perm (List.range image.functions.length)) :
    image.CallsReach program := by
  intro callee args hcontains
  obtain ⟨_, _, hdefect⟩ := linkDefect?_of_contains h hcontains
  obtain ⟨id, entry, hcallee, hentry, hargs⟩ := linkDefect?_call_eq_none_iff.1 hdefect
  have hmem := List.mem_of_find?_eq_some hentry
  have hid : entry.id = id := by simpa using List.find?_some hentry
  obtain ⟨function, hcheck⟩ := exists_check (verify_eq_ok_iff.1 h).1 hmem
  obtain ⟨summary, -, rfl⟩ := FunctionEntry.check_eq_ok_iff.1 hcheck
  have hfunction := (function?_of_verify hids h).2 ⟨⟨entry, hmem, hcheck⟩, hid⟩
  exact ⟨id, entry, _, hcallee, hentry, hargs, hfunction, rfl⟩

theorem string?_of_verify (h : image.verify = .ok program)
    (hids : (image.strings.map (·.id)).Perm (List.range image.strings.length)) {id : Nat}
    (hlt : id < image.strings.length) :
    ∃ entry ∈ image.strings, entry.id = id ∧ program.string? id = some entry.bytes := by
  obtain ⟨-, -, rfl⟩ := verify_eq_ok_iff.1 h
  have hsorted : id < (image.strings.mergeSort (·.id ≤ ·.id)).length := by simpa using hlt
  have hfound := List.getElem?_eq_getElem hsorted
  obtain ⟨hmem, hid⟩ := (getElem?_mergeSort_iff hids).1 hfound
  exact ⟨_, hmem, hid, by simp [Program.string?, hlt]⟩

theorem stringsReach_of_verify (h : image.verify = .ok program)
    (hids : (image.strings.map (·.id)).Perm (List.range image.strings.length)) :
    image.StringsReach program := by
  intro string hcontains
  obtain ⟨_, _, hdefect⟩ := linkDefect?_of_contains h hcontains
  obtain ⟨id, hstring, hlt⟩ := linkDefect?_printString_eq_none_iff.1 hdefect
  obtain ⟨entry, hentry, hid, hfound⟩ := string?_of_verify h hids hlt
  exact ⟨id, entry, hentry, hstring, hid, hfound⟩

/-- The function table of a verified program is dense exactly if the ids of the image number it,
and then calls lead to what has been checked. If the ids of the strings number their table, strings
are found as well. -/
theorem verify_links (h : image.verify = .ok program) :
    (program.Dense ↔ (image.functions.map (·.id)).Perm (List.range image.functions.length)) ∧
      ((image.functions.map (·.id)).Perm (List.range image.functions.length) →
        image.CallsReach program) ∧
      ((image.strings.map (·.id)).Perm (List.range image.strings.length) →
        image.StringsReach program) :=
  ⟨dense_iff_of_verify h, callsReach_of_verify h, stringsReach_of_verify h⟩

theorem verify_links_swapped : swappedProgram.Dense ∧ swapped.CallsReach swappedProgram ∧
    swapped.StringsReach swappedProgram := by
  have hlinks := verify_links verify_swapped
  exact ⟨hlinks.1.2 (by decide), hlinks.2.1 (by decide), hlinks.2.2 (by decide)⟩

def sparse : Image where
  name := "sparse"
  functions := [
    { name := "main", id := 0, argCount := 0
      code := (List.flatMap Instruction.encode [.printString 1, .call 2 0, .ret]).toArray },
    { name := "ten", id := 2, argCount := 0
      code := (List.flatMap Instruction.encode [.pushConstant 10, .ret]).toArray },
    { name := "twenty", id := 3, argCount := 0
      code := (List.flatMap Instruction.encode [.pushConstant 20, .ret]).toArray }]
  strings := [⟨1, [0x61]⟩, ⟨2, [0x62]⟩]

def sparseProgram : Program where
  name := "sparse"
  functions := #[
    { name := "main", id := 0, argCount := 0, localCount := 0, maxStackDepth := 1
      code := (List.flatMap Instruction.encode [.printString 1, .call 2 0, .ret]).toArray },
    { name := "ten", id := 2, argCount := 0, localCount := 0, maxStackDepth := 1
      code := (List.flatMap Instruction.encode [.pushConstant 10, .ret]).toArray },
    { name := "twenty", id := 3, argCount := 0, localCount := 0, maxStackDepth := 1
      code := (List.flatMap Instruction.encode [.pushConstant 20, .ret]).toArray }]
  strings := #[[0x61], [0x62]]

theorem contains_sparseProgram (offset : Nat) {instr : Instruction}
    (h : (offset, instr) ∈ (Listing.ofCode sparseProgram.functions[0].code).items) :
    sparseProgram.Contains instr :=
  ⟨_, Array.getElem_mem (by decide), offset, h⟩

/-- Verification lets gaps pass, and then calls and strings lead elsewhere. -/
theorem verify_sparse : sparse.verify = .ok sparseProgram ∧ ¬ sparseProgram.Dense ∧
    ¬ sparse.CallsReach sparseProgram ∧ ¬ sparse.StringsReach sparseProgram := by
  have hchecked : sparse.functions.filterMap (fun entry => entry.check.toOption) =
      sparseProgram.functions.toList := by decide +kernel
  have hfunctions : sparseProgram.functions.toList.mergeSort (·.id ≤ ·.id) =
      sparseProgram.functions.toList := mergeSort_eq_self_iff.2 (by decide)
  have hstrings : sparse.strings.mergeSort (·.id ≤ ·.id) = sparse.strings :=
    mergeSort_eq_self_iff.2 (by decide)
  have hverify : sparse.verify = .ok sparseProgram := by
    refine verify_eq_ok_iff.2 ⟨by decide +kernel, by decide +kernel, ?_⟩
    rw [hchecked, hfunctions, hstrings]
    rfl
  refine ⟨hverify, fun hdense => ?_, fun hcalls => ?_, fun hstrings => ?_⟩
  · have hids := (dense_iff_of_verify hverify).1 hdense
    revert hids
    decide
  · -- The call of function 2 leads to the function with id 3.
    obtain ⟨id, entry, function, hid, hentry, -, hfunction, rfl⟩ :=
      hcalls 2 0 (contains_sparseProgram 9 (by decide +kernel))
    obtain rfl := Option.some.inj hid
    obtain rfl := Option.some.inj hfunction
    revert hentry
    decide
  · -- String 1 is found in the place of the one with id 2.
    obtain ⟨id, entry, hmem, hid, hentry, hfound⟩ :=
      hstrings 1 (contains_sparseProgram 0 (by decide +kernel))
    obtain rfl := Option.some.inj hid
    have hbytes : ∀ entry ∈ sparse.strings, entry.id = 1 → entry.bytes = [0x61] := by decide
    rw [hbytes entry hmem hentry] at hfound
    revert hfound
    decide

end Image
end TieredVM
