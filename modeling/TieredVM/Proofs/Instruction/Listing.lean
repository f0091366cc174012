import TieredVM.Proofs.Instruction.Encoding
/-!
Listings of code. One without an error is the list of the instructions whose encodings make up the
code, each with the offset at which its encoding starts.
-/
set_option autoImplicit false

namespace TieredVM.Listing

theorem ofOffset_size (code : Array UInt8) : ofOffset code code.size = done := by
  rw [ofOffset, if_neg (Nat.lt_irrefl _)]

theorem ofOffset_of_decode {code : Array UInt8} {offset : Nat} {instr : Instruction}
    (hlt : offset < code.size) (h : Instruction.decode code offset = .ok instr) :
    ofOffset code offset = item offset instr (ofOffset code (offset + instr.encodedLength)) := by
  rw [ofOffset, if_pos hlt, h]

theorem exists_ofOffset_eq_item {code : Array UInt8} {offset : Nat} (hlt : offset < code.size)
    (h : (ofOffset code offset).error? = none) :
    ∃ instr, Instruction.decode code offset = .ok instr ∧
      ofOffset code offset = item offset instr (ofOffset code (offset + instr.encodedLength)) ∧
      (ofOffset code (offset + instr.encodedLength)).error? = none := by
  rw [ofOffset, if_pos hlt] at h
  rw [ofOffset, if_pos hlt]
  cases hd : Instruction.decode code offset with
  | error error => simp [hd, error?] at h
  | ok instr =>
    simp only [hd] at h
    exact ⟨instr, rfl, rfl, h⟩

theorem decode_of_mem_items {code : Array UInt8} {offset k : Nat} {instr : Instruction}
    (h : (k, instr) ∈ (ofOffset code offset).items) :
    Instruction.decode code k = .ok instr := by
  fun_induction ofOffset code offset with
  | case1 offset hlt error hd => simp [items] at h
  | case2 offset hlt first hd ih =>
    rw [items, List.mem_cons] at h
    rcases h with h | h
    · cases h
      exact hd
    · exact ih h
  | case3 offset hge => simp [items] at h

theorem le_of_mem_ofOffset {code : Array UInt8} {offset k : Nat} {instr : Instruction}
    (h : (k, instr) ∈ (ofOffset code offset).items) : offset ≤ k := by
  fun_induction ofOffset code offset with
  | case1 offset hlt error hd => simp [items] at h
  | case2 offset hlt first hd ih =>
    have hpos := first.encodedLength_pos
    rw [items, List.mem_cons] at h
    rcases h with h | h
    · cases h
      exact Nat.le_refl _
    · have hle := ih h
      omega
  | case3 offset hge => simp [items] at h

def ofInstructions : Nat → List Instruction → Listing
  | _, [] => done
  | offset, instr :: rest => item offset instr (ofInstructions (offset + instr.encodedLength) rest)

theorem ofOffset_eq_ofInstructions {code : Array UInt8} {offset : Nat} {instrs : List Instruction}
    (h : code.toList.drop offset = instrs.flatMap Instruction.encode) :
    ofOffset code offset = ofInstructions offset instrs := by
  induction instrs generalizing offset with
  | nil =>
    have hn : ¬ offset < code.size := by
      have hl := List.drop_eq_nil_iff.1 h
      simpa using hl
    rw [ofOffset, if_neg hn, ofInstructions]
  | cons instr rest ih =>
    rw [List.flatMap_cons] at h
    have hd : Instruction.decode code offset = .ok instr :=
      Instruction.decode_eq_ok_iff.2 ⟨_, h.symm⟩
    have hrest : code.toList.drop (offset + instr.encodedLength) =
        rest.flatMap Instruction.encode :=
      List.append_cancel_left ((Instruction.drop_of_decode hd).symm.trans h)
    have hle := Instruction.offset_add_le_of_decode hd
    have hpos := instr.encodedLength_pos
    rw [ofOffset, if_pos (by omega), hd, ofInstructions]
    simp only [ih hrest]

theorem ofCode_instructions (instrs : List Instruction) :
    ofCode (instrs.flatMap Instruction.encode).toArray = ofInstructions 0 instrs :=
  ofOffset_eq_ofInstructions rfl

theorem exists_ofInstructions {code : Array UInt8} {offset : Nat}
    (h : (ofOffset code offset).error? = none) :
    ∃ instrs : List Instruction, code.toList.drop offset = instrs.flatMap Instruction.encode := by
  fun_induction ofOffset code offset with
  | case1 offset hlt error hd => simp [error?] at h
  | case2 offset hlt instr hd ih =>
    obtain ⟨instrs, hrest⟩ := ih (by simpa [error?] using h)
    exact ⟨instr :: instrs, by rw [List.flatMap_cons, ← hrest, Instruction.drop_of_decode hd]⟩
  | case3 offset hge => exact ⟨[], by simpa using hge⟩

def placed (instrs : List Instruction) : List (Nat × Instruction) := (ofInstructions 0 instrs).items

def starts (instrs : List Instruction) : List Nat := (ofInstructions 0 instrs).offsets

theorem mem_offsets_iff {listing : Listing} {offset : Nat} :
    offset ∈ listing.offsets ↔ ∃ instr, (offset, instr) ∈ listing.items := by
  simp [offsets]

theorem lt_size_of_mem_offsets {code : Array UInt8} {offset : Nat}
    (h : offset ∈ (ofCode code).offsets) : offset < code.size := by
  obtain ⟨instr, hitem⟩ := mem_offsets_iff.1 h
  have hle := Instruction.offset_add_le_of_decode (decode_of_mem_items hitem)
  have hpos := instr.encodedLength_pos
  omega

@[simp] theorem error?_ofInstructions (offset : Nat) (instrs : List Instruction) :
    (ofInstructions offset instrs).error? = none := by
  induction instrs generalizing offset with
  | nil => rfl
  | cons instr rest ih => exact ih _

theorem mem_starts_iff {instrs : List Instruction} {offset : Nat} :
    offset ∈ starts instrs ↔ ∃ instr, (offset, instr) ∈ placed instrs :=
  mem_offsets_iff

@[simp] theorem items_ofInstructions_cons (offset : Nat) (instr : Instruction)
    (rest : List Instruction) :
    (ofInstructions offset (instr :: rest)).items =
      (offset, instr) :: (ofInstructions (offset + instr.encodedLength) rest).items := rfl

theorem items_ofInstructions_append (offset : Nat) (first second : List Instruction) :
    (ofInstructions offset (first ++ second)).items = (ofInstructions offset first).items ++
      (ofInstructions (offset + (first.flatMap Instruction.encode).length) second).items := by
  induction first generalizing offset with
  | nil => rfl
  | cons instr first ih => simp [ih, Instruction.length_encode, Nat.add_assoc]

theorem map_snd_items_ofInstructions (offset : Nat) (instrs : List Instruction) :
    (ofInstructions offset instrs).items.map (·.2) = instrs := by
  induction instrs generalizing offset with
  | nil => rfl
  | cons instr rest ih => simp [ih]

theorem mem_offsets_append (offset : Nat) (first second : List Instruction) :
    offset + (first.flatMap Instruction.encode).length ∈
        (ofInstructions offset (first ++ second)).offsets ∨ second = [] := by
  cases second with
  | nil => exact .inr rfl
  | cons instr rest =>
    left
    rw [mem_offsets_iff, items_ofInstructions_append]
    exact ⟨instr, List.mem_append_right _ List.mem_cons_self⟩

theorem le_of_mem_items {instrs : List Instruction} {offset k : Nat} {instr : Instruction}
    (h : (k, instr) ∈ (ofInstructions offset instrs).items) : offset ≤ k := by
  induction instrs generalizing offset with
  | nil => simp [ofInstructions, items] at h
  | cons first rest ih =>
    rw [items_ofInstructions_cons, List.mem_cons] at h
    rcases h with h | h
    · cases h
      exact Nat.le_refl _
    · have hle := ih h
      omega

theorem lt_of_mem_items {instrs : List Instruction} {offset k : Nat} {instr : Instruction}
    (h : (k, instr) ∈ (ofInstructions offset instrs).items) :
    k < offset + (instrs.flatMap Instruction.encode).length := by
  induction instrs generalizing offset with
  | nil => simp [ofInstructions, items] at h
  | cons first rest ih =>
    have hpos := first.encodedLength_pos
    rw [items_ofInstructions_cons, List.mem_cons] at h
    rw [List.flatMap_cons, List.length_append, Instruction.length_encode]
    rcases h with h | h
    · cases h
      omega
    · have hlt := ih h
      omega

theorem mem_of_mem_items {instrs : List Instruction} {offset k : Nat} {instr : Instruction}
    (h : (k, instr) ∈ (ofInstructions offset instrs).items) : instr ∈ instrs := by
  induction instrs generalizing offset with
  | nil => simp [ofInstructions, items] at h
  | cons first rest ih =>
    rw [items_ofInstructions_cons, List.mem_cons] at h
    rcases h with h | h
    · cases h
      exact List.mem_cons_self
    · exact List.mem_cons_of_mem _ (ih h)

theorem exists_mem_items {instrs : List Instruction} {instr : Instruction} (h : instr ∈ instrs)
    (offset : Nat) : ∃ k, (k, instr) ∈ (ofInstructions offset instrs).items := by
  induction instrs generalizing offset with
  | nil => simp at h
  | cons first rest ih =>
    rcases List.mem_cons.1 h with rfl | h
    · exact ⟨offset, List.mem_cons_self⟩
    · obtain ⟨k, hk⟩ := ih h (offset + first.encodedLength)
      exact ⟨k, List.mem_cons_of_mem _ hk⟩

theorem mem_offsets_or_last {instrs : List Instruction} {offset k : Nat} {instr : Instruction}
    (h : (k, instr) ∈ (ofInstructions offset instrs).items) :
    k + instr.encodedLength ∈ (ofInstructions offset instrs).offsets ∨
      instrs.getLast? = some instr := by
  induction instrs generalizing offset with
  | nil => simp [ofInstructions, items] at h
  | cons first rest ih =>
    rw [items_ofInstructions_cons, List.mem_cons] at h
    cases rest with
    | nil =>
      rcases h with h | h
      · cases h
        exact .inr rfl
      · simp [ofInstructions, items] at h
    | cons second rest =>
      rcases h with h | h
      · cases h
        left
        simp [offsets, items, ofInstructions]
      · rcases ih h with hmem | hlast
        · left
          rw [mem_offsets_iff] at hmem ⊢
          obtain ⟨next, hnext⟩ := hmem
          exact ⟨next, List.mem_cons_of_mem _ hnext⟩
        · right
          rwa [List.getLast?_cons_cons]

theorem exists_last {instrs : List Instruction} {last : Instruction}
    (h : instrs.getLast? = some last) (offset : Nat) :
    ∃ k, (k, last) ∈ (ofInstructions offset instrs).items ∧
      ∀ start ∈ (ofInstructions offset instrs).offsets, start ≤ k := by
  induction instrs generalizing offset with
  | nil => cases h
  | cons first rest ih =>
    cases rest with
    | nil =>
      cases h
      exact ⟨offset, List.mem_cons_self, by simp [offsets, items, ofInstructions]⟩
    | cons second rest =>
      rw [List.getLast?_cons_cons] at h
      obtain ⟨k, hk, hlast⟩ := ih h (offset + first.encodedLength)
      refine ⟨k, List.mem_cons_of_mem _ hk, fun start hstart => ?_⟩
      rw [offsets, items_ofInstructions_cons, List.map_cons, List.mem_cons] at hstart
      rcases hstart with rfl | hstart
      · have hle := le_of_mem_items hk
        omega
      · exact hlast start hstart

end TieredVM.Listing
