import TieredVM.Proofs.Verify.Accepted
set_option autoImplicit false

namespace TieredVM

namespace Image

structure Reorders (image image' : Image) : Prop where
  name : image'.name = image.name
  functions : image'.functions.Perm image.functions
  strings : image'.strings.Perm image.strings

def sorted (image : Image) : Image :=
  { image with
    functions := image.functions.mergeSort (·.id ≤ ·.id)
    strings := image.strings.mergeSort (·.id ≤ ·.id) }

structure InOrder (image : Image) : Prop where
  functions : image.functions.Pairwise (·.id < ·.id)
  strings : image.strings.Pairwise (·.id < ·.id)

structure Distinct (image : Image) : Prop where
  functions : (image.functions.map (·.id)).Nodup
  strings : (image.strings.map (·.id)).Nodup

variable {image image' : Image} {program : Program}

theorem reorders_sorted (image : Image) : image.Reorders image.sorted :=
  ⟨rfl, image.functions.mergeSort_perm _, image.strings.mergeSort_perm _⟩

theorem Reorders.wellFormed (h : image.Reorders image') (hw : image.WellFormed) :
    image'.WellFormed where
  name := h.name ▸ hw.name
  functionCount := h.functions.length_eq ▸ hw.functionCount
  functionIds := h.functions.length_eq ▸ (h.functions.map (·.id)).trans hw.functionIds
  functions := fun entry hentry => hw.functions entry (h.functions.mem_iff.1 hentry)
  stringCount := h.strings.length_eq ▸ hw.stringCount
  stringIds := h.strings.length_eq ▸ (h.strings.map (·.id)).trans hw.stringIds
  strings := fun entry hentry => hw.strings entry (h.strings.mem_iff.1 hentry)

theorem WellFormed.nodup_functions (hw : image.WellFormed) :
    (image.functions.map (·.id)).Nodup :=
  hw.functionIds.nodup_iff.2 List.nodup_range

theorem WellFormed.nodup_strings (hw : image.WellFormed) : (image.strings.map (·.id)).Nodup :=
  hw.stringIds.nodup_iff.2 List.nodup_range

theorem Reorders.function?_eq (h : image.Reorders image')
    (hnodup : (image.functions.map (·.id)).Nodup) : image'.function? = image.function? := by
  have hnodup' : (image'.functions.map (·.id)).Nodup :=
    (h.functions.map (·.id)).nodup_iff.2 hnodup
  funext id
  apply Option.ext
  intro entry
  rw [function?_eq_some_iff hnodup, function?_eq_some_iff hnodup', h.functions.mem_iff]

theorem Reorders.stackErrors_perm (h : image.Reorders image') :
    image'.stackErrors.Perm image.stackErrors :=
  h.functions.filterMap _

theorem Reorders.linkDefects_eq (h : image.Reorders image')
    (hnodup : (image.functions.map (·.id)).Nodup) : image'.linkDefects = image.linkDefects := by
  have hdefect : image'.linkDefect? = image.linkDefect? := by
    funext entry offset instr
    cases instr <;> simp only [linkDefect?, h.function?_eq hnodup, h.strings.length_eq]
  funext entry
  simp only [linkDefects, hdefect]

theorem Reorders.linkErrors_perm (h : image.Reorders image')
    (hnodup : (image.functions.map (·.id)).Nodup) :
    image'.linkErrors.Perm image.linkErrors := by
  unfold linkErrors
  rw [h.linkDefects_eq hnodup]
  exact h.functions.flatMap_right _

theorem Reorders.verify_eq_ok_of_distinct (h : image.Reorders image') (hdistinct : image.Distinct)
    (hverify : image.verify = .ok program) : image'.verify = .ok program := by
  obtain ⟨hstack, hlinks, rfl⟩ := verify_eq_ok_iff.1 hverify
  have hstack' : image'.stackErrors = [] := (hstack ▸ h.stackErrors_perm).eq_nil
  have hlinks' : image'.linkErrors = [] := (hlinks ▸ h.linkErrors_perm hdistinct.functions).eq_nil
  refine verify_eq_ok_iff.2 ⟨hstack', hlinks', ?_⟩
  have hnodup : ((image.functions.filterMap fun entry => entry.check.toOption).map (·.id)).Nodup :=
    map_id_checked hstack ▸ hdistinct.functions
  rw [h.name, mergeSort_congr_perm (h.functions.filterMap _).symm hnodup,
    mergeSort_congr_perm h.strings.symm hdistinct.strings]

theorem Reorders.verify_eq_ok (h : image.Reorders image') (hw : image.WellFormed)
    (hverify : image.verify = .ok program) : image'.verify = .ok program :=
  h.verify_eq_ok_of_distinct ⟨hw.nodup_functions, hw.nodup_strings⟩ hverify

theorem sorted_eq_self_iff (hw : image.WellFormed) : image.sorted = image ↔ image.InOrder := by
  have hlt {α : Type} {id : α → Nat} {table : List α} (hnodup : (table.map id).Nodup) :
      table.mergeSort (id · ≤ id ·) = table ↔ table.Pairwise (id · < id ·) := by
    rw [mergeSort_eq_self_iff]
    constructor
    · intro hle
      exact (hle.and (List.pairwise_map.1 hnodup)).imp fun h => Nat.lt_of_le_of_ne h.1 h.2
    · intro hlt
      exact hlt.imp Nat.le_of_lt
  constructor
  · intro h
    exact ⟨(hlt hw.nodup_functions).1 (congrArg functions h),
      (hlt hw.nodup_strings).1 (congrArg strings h)⟩
  · intro h
    unfold sorted
    rw [(hlt hw.nodup_functions).2 h.functions, (hlt hw.nodup_strings).2 h.strings]

theorem inOrder_sorted (hw : image.WellFormed) : image.sorted.InOrder := by
  refine (sorted_eq_self_iff ((reorders_sorted image).wellFormed hw)).1 ?_
  have hfunctions := mergeSort_eq_self_iff.2
    (pairwise_mergeSort_id FunctionEntry.id image.functions)
  have hstrings := mergeSort_eq_self_iff.2 (pairwise_mergeSort_id StringEntry.id image.strings)
  simp only [sorted, hfunctions, hstrings]

theorem mapIdx_sorted_strings
    (hids : (image.strings.map (·.id)).Perm (List.range image.strings.length)) :
    ((image.strings.mergeSort (·.id ≤ ·.id)).map (·.bytes)).mapIdx (fun id bytes => ⟨id, bytes⟩) =
      image.strings.mergeSort (·.id ≤ ·.id) := by
  apply List.ext_getElem?
  intro k
  rw [List.getElem?_mapIdx, List.getElem?_map]
  cases hk : (image.strings.mergeSort (·.id ≤ ·.id))[k]? with
  | none => rfl
  | some entry =>
    obtain ⟨-, rfl⟩ := (getElem?_mergeSort_iff hids).1 hk
    rfl

theorem toImage_of_verify (hw : image.WellFormed) (h : image.verify = .ok program) :
    program.toImage = image.sorted := by
  obtain ⟨hstack, -, rfl⟩ := verify_eq_ok_iff.1 h
  have hfunctions := List.map_mergeSort (r := fun f g : Function => decide (f.id ≤ g.id))
    (s := fun f g : FunctionEntry => decide (f.id ≤ g.id)) (f := Function.toEntry)
    (l := image.functions.filterMap fun entry => entry.check.toOption) (fun _ _ _ _ => rfl)
  rw [map_toEntry_checked hstack] at hfunctions
  simp only [Program.toImage, sorted, hfunctions, mapIdx_sorted_strings hw.stringIds]

theorem encode_sorted_eq_iff (hw : image.WellFormed) :
    image.sorted.encode = image.encode ↔ image.InOrder := by
  rw [← sorted_eq_self_iff hw]
  constructor
  · intro h
    have hsorted := decode_encode ((reorders_sorted image).wellFormed hw)
    rw [h, decode_encode hw] at hsorted
    exact (Except.ok.inj hsorted).symm
  · intro h
    rw [h]

def swapped : Image where
  name := "swapped"
  functions := [
    { name := "ten", id := 1, argCount := 0
      code := (List.flatMap Instruction.encode [.pushConstant 10, .ret]).toArray },
    { name := "main", id := 0, argCount := 0
      code := (List.flatMap Instruction.encode [.printString 1, .call 1 0, .ret]).toArray }]
  strings := [⟨1, [0x62]⟩, ⟨0, [0x61]⟩]

def swappedProgram : Program where
  name := "swapped"
  functions := #[
    { name := "main", id := 0, argCount := 0, localCount := 0, maxStackDepth := 1
      code := (List.flatMap Instruction.encode [.printString 1, .call 1 0, .ret]).toArray },
    { name := "ten", id := 1, argCount := 0, localCount := 0, maxStackDepth := 1
      code := (List.flatMap Instruction.encode [.pushConstant 10, .ret]).toArray }]
  strings := #[[0x61], [0x62]]

theorem wellFormed_swapped : swapped.WellFormed := by decide +kernel

theorem verify_swapped : swapped.verify = .ok swappedProgram := by
  have hchecked : swapped.functions.filterMap (fun entry => entry.check.toOption) =
      swappedProgram.functions.toList.reverse := by decide +kernel
  have hfunctions : swappedProgram.functions.toList.reverse.mergeSort (·.id ≤ ·.id) =
      swappedProgram.functions.toList :=
    mergeSort_eq_of_perm (List.reverse_perm _) (by decide) (by decide)
  have hstrings : swapped.strings.mergeSort (·.id ≤ ·.id) = swapped.strings.reverse :=
    mergeSort_eq_of_perm (List.reverse_perm _).symm (by decide) (by decide)
  refine verify_eq_ok_iff.2 ⟨by decide +kernel, by decide +kernel, ?_⟩
  rw [hchecked, hfunctions, hstrings]
  rfl

end Image

namespace Program

variable {file : List UInt8} {program : Program}

theorem dense_of_verify {image : Image}
    (hids : (image.functions.map (·.id)).Perm (List.range image.functions.length))
    (h : image.verify = .ok program) : program.Dense :=
  fun _ _ hfunction => ((Image.function?_of_verify hids h).1 hfunction).2

/-- Loading puts the tables of a file in order, and after that it changes nothing. -/
theorem load_toImage (h : load file = .ok program) :
    program.Dense ∧ ∃ image, Image.decode file = .ok image ∧
      image.Reorders image.sorted ∧ image.sorted.InOrder ∧
      program.toImage.encode = image.sorted.encode ∧
      load program.toImage.encode = .ok program ∧
      (program.toImage.encode = file ↔ image.InOrder) := by
  obtain ⟨image, hdecode, hverify⟩ := load_eq_ok_iff.1 h
  have hw := Image.wellFormed_of_decode hdecode
  have hfile := Image.eq_encode_of_decode hdecode
  have hsorted := Image.toImage_of_verify hw hverify
  have hreorders := image.reorders_sorted
  refine ⟨dense_of_verify hw.functionIds hverify, image, hdecode, hreorders,
    Image.inOrder_sorted hw, by rw [hsorted], ?_, ?_⟩
  · rw [hsorted, load_eq_ok_iff]
    exact ⟨image.sorted, Image.decode_encode (hreorders.wellFormed hw),
      hreorders.verify_eq_ok hw hverify⟩
  · rw [hsorted, hfile]
    exact Image.encode_sorted_eq_iff hw

theorem load_toImage_swapped :
    load Image.swapped.encode = .ok Image.swappedProgram ∧
      load Image.swappedProgram.toImage.encode = .ok Image.swappedProgram ∧
      Image.swappedProgram.toImage.encode ≠ Image.swapped.encode := by
  have hdecode := Image.decode_encode Image.wellFormed_swapped
  have hload := load_eq_ok_iff.2 ⟨_, hdecode, Image.verify_swapped⟩
  obtain ⟨-, image, himage, -, -, -, hagain, horder⟩ := load_toImage hload
  obtain rfl := Except.ok.inj (hdecode.symm.trans himage)
  refine ⟨hload, hagain, fun heq => ?_⟩
  have hfunctions := (horder.1 heq).functions
  revert hfunctions
  decide

end Program
end TieredVM
