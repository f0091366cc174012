import TieredVM.Proofs.Instruction.Listing
set_option autoImplicit false

namespace TieredVM.Listing

def withOffsets (instrs : List Instruction) : List (Nat × Instruction) :=
  instrs.mapIdx fun k instr => (((instrs.take k).flatMap Instruction.encode).length, instr)

theorem items_ofInstructions_eq_mapIdx (offset : Nat) (instrs : List Instruction) :
    (ofInstructions offset instrs).items = instrs.mapIdx fun k instr =>
      (offset + ((instrs.take k).flatMap Instruction.encode).length, instr) := by
  induction instrs generalizing offset with
  | nil => rfl
  | cons first rest ih =>
    rw [items_ofInstructions_cons, ih, List.mapIdx_cons]
    simp [Instruction.length_encode, Nat.add_assoc]

theorem placed_eq_withOffsets (instrs : List Instruction) : placed instrs = withOffsets instrs := by
  rw [placed, items_ofInstructions_eq_mapIdx]
  simp only [Nat.zero_add, withOffsets]

theorem results_of_error? {listing : Listing} (h : listing.error? = none) :
    listing.results = listing.items.map .ok := by
  induction listing with
  | done => rfl
  | bad error => cases h
  | item offset instr rest ih => rw [results, ih h, items, List.map_cons]

theorem results_encode (instrs : List Instruction) :
    (ofCode (instrs.flatMap Instruction.encode).toArray).results =
      (withOffsets instrs).map .ok := by
  rw [ofCode_instructions, results_of_error? (error?_ofInstructions 0 instrs),
    ← placed_eq_withOffsets, placed]

theorem exists_split_of_mem_withOffsets {instrs : List Instruction} {item : Nat × Instruction}
    (h : item ∈ withOffsets instrs) : ∃ first second, instrs = first ++ item.2 :: second ∧
      item.1 = (first.flatMap Instruction.encode).length := by
  obtain ⟨k, hk, rfl⟩ := List.mem_mapIdx.1 h
  refine ⟨instrs.take k, instrs.drop (k + 1), ?_, rfl⟩
  rw [← List.drop_eq_getElem_cons hk, List.take_append_drop]

theorem decode_within {instrs : List Instruction} {item : Nat × Instruction}
    (h : item ∈ withOffsets instrs) (before after : List UInt8) :
    Instruction.decode (before ++ instrs.flatMap Instruction.encode ++ after).toArray
      (before.length + item.1) = .ok item.2 := by
  obtain ⟨first, second, rfl, hoffset⟩ := exists_split_of_mem_withOffsets h
  rw [Instruction.decode_eq_ok_iff, hoffset, ← List.length_append]
  have hcode : before ++ (first ++ item.2 :: second).flatMap Instruction.encode ++ after =
      (before ++ first.flatMap Instruction.encode) ++
        (item.2.encode ++ (second.flatMap Instruction.encode ++ after)) := by
    simp only [List.flatMap_append, List.flatMap_cons, List.append_assoc]
  rw [hcode, List.drop_left]
  exact List.prefix_append _ _

theorem exists_results (code : Array UInt8) (offset : Nat) : ∃ instrs : List Instruction,
    ((ofOffset code offset).results = (ofInstructions offset instrs).items.map .ok ∧
      code.toList.drop offset = instrs.flatMap Instruction.encode) ∨
    ∃ error rest,
      (ofOffset code offset).results =
        (ofInstructions offset instrs).items.map .ok ++ [.error error] ∧
      code.toList.drop offset = instrs.flatMap Instruction.encode ++ rest ∧
      Instruction.decode code (offset + (instrs.flatMap Instruction.encode).length) =
        .error error := by
  fun_induction ofOffset code offset with
  | case1 offset hlt error hd => exact ⟨[], .inr ⟨error, _, rfl, rfl, hd⟩⟩
  | case2 offset hlt instr hd ih =>
    have hdrop := Instruction.drop_of_decode hd
    obtain ⟨instrs, ⟨hresults, hrest⟩ | ⟨error, rest, hresults, hrest, hstop⟩⟩ := ih
    · refine ⟨instr :: instrs, .inl ⟨?_, ?_⟩⟩
      · rw [results, hresults, items_ofInstructions_cons, List.map_cons]
      · rw [hdrop, hrest, List.flatMap_cons]
    · refine ⟨instr :: instrs, .inr ⟨error, rest, ?_, ?_, ?_⟩⟩
      · rw [results, hresults, items_ofInstructions_cons, List.map_cons, List.cons_append]
      · rw [hdrop, hrest, List.flatMap_cons, List.append_assoc]
      · rwa [List.flatMap_cons, List.length_append, Instruction.length_encode, ← Nat.add_assoc]
  | case3 offset hge => exact ⟨[], .inl ⟨rfl, List.drop_eq_nil_of_le (by simpa using hge)⟩⟩

/-- Rows of instructions are read back from their encodings, inside of other bytes too; and any
code is read as a row that it begins with, followed by nothing if that is all of the code, and else
by the error of the place behind it, where no encoding stands. -/
theorem ofCode_exact :
    (∀ instrs : List Instruction,
      (ofCode (instrs.flatMap Instruction.encode).toArray).results = (withOffsets instrs).map .ok ∧
      ∀ item ∈ withOffsets instrs, ∀ before after : List UInt8,
        Instruction.decode (before ++ instrs.flatMap Instruction.encode ++ after).toArray
          (before.length + item.1) = .ok item.2) ∧
    ∀ code : Array UInt8, ∃ instrs : List Instruction,
      ((ofCode code).results = (withOffsets instrs).map .ok ∧
        instrs.flatMap Instruction.encode = code.toList) ∨
      ∃ error : DecodeError,
        (ofCode code).results = (withOffsets instrs).map .ok ++ [.error error] ∧
        instrs.flatMap Instruction.encode <+: code.toList ∧
        error.offset = (instrs.flatMap Instruction.encode).length ∧
        Instruction.decode code error.offset = .error error ∧
        ∀ instr : Instruction, ¬ instr.encode <+: code.toList.drop error.offset := by
  refine ⟨fun instrs => ⟨results_encode instrs, fun _ => decode_within⟩, fun code => ?_⟩
  obtain ⟨instrs, ⟨hresults, hcode⟩ | ⟨error, rest, hresults, hcode, hstop⟩⟩ :=
    exists_results code 0
  · rw [← placed, placed_eq_withOffsets] at hresults
    exact ⟨instrs, .inl ⟨hresults, hcode.symm⟩⟩
  · rw [← placed, placed_eq_withOffsets] at hresults
    rw [Nat.zero_add] at hstop
    have hoffset := Instruction.offset_of_decode hstop
    rw [← hoffset] at hstop
    refine ⟨instrs, .inr ⟨error, hresults, ⟨rest, hcode.symm⟩, hoffset, hstop, fun instr h => ?_⟩⟩
    rw [← Instruction.decode_eq_ok_iff, hstop] at h
    cases h

def calling : List Instruction := [.pushConstant 5, .call 1 2, .ret]

theorem ofCode_exact_calling : (9, .call 1 2) ∈ withOffsets calling ∧
    Instruction.decode ([255] ++ calling.flatMap Instruction.encode ++ [1]).toArray (1 + 9) =
      .ok (.call 1 2) := by
  have hmem : (9, .call 1 2) ∈ withOffsets calling := by decide
  exact ⟨hmem, (ofCode_exact.1 calling).2 _ hmem [255] [1]⟩

example : (ofCode #[0, 16, 0, 0, 0, 0, 0, 0, 0, 0, 0]).results =
    [.ok (0, .nop), .error (.truncated 1 .call)] := by decide +kernel

end TieredVM.Listing
