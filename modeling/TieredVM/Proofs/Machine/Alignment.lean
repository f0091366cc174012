import TieredVM.Proofs.Instruction.Listing
import TieredVM.Proofs.Machine.Perform
/-!
Places in compiled code and the byte offsets that they stand for. A place stands for the offset of
its operation and for the offsets of the no-ops right before it, so several offsets may share one.
-/
set_option autoImplicit false

namespace TieredVM.ThreadedCode

/-- The operations from `place` on come from the instructions from `offset` on. -/
structure Aligned (program : Program) (code : ThreadedCode) (place offset : Nat) : Prop where
  le_size : offset ≤ code.function.code.size
  readable : (Listing.ofOffset code.function.code offset).error? = none
  rest : translateItems program code.function (Listing.ofCode code.function.code).items
    (Listing.ofOffset code.function.code offset).items = .ok (code.ops.toList.drop place)

inductive Standing (program : Program) (code : ThreadedCode) (place offset : Nat) : Prop
  | finished (hoffset : code.function.code[offset]? = none) (hplace : code.ops[place]? = none)
    (hsize : offset = code.function.code.size)
  | skipped (hdecode : Instruction.decode code.function.code offset = .ok .nop)
    (hnext : Aligned program code place (offset + 1))
  | operation (instr : Instruction) (op : Op) (hnop : instr ≠ .nop)
    (hdecode : Instruction.decode code.function.code offset = .ok instr)
    (hplace : code.ops[place]? = some ⟨op, offset⟩)
    (hop : translateInstr program code.function (Listing.ofCode code.function.code).items offset
      instr = .ok (some op))
    (hnext : Aligned program code (place + 1) (offset + instr.encodedLength))

theorem translateItems_cons_eq_ok_iff {program : Program} {function : Function}
    {all rest : List (Nat × Instruction)} {offset : Nat} {instr : Instruction} {ops : List OpAt} :
    translateItems program function all ((offset, instr) :: rest) = .ok ops ↔
      ∃ op? later, translateInstr program function all offset instr = .ok op? ∧
        translateItems program function all rest = .ok later ∧
        ops = (op?.map (⟨·, offset⟩)).toList ++ later := by
  simp only [translateItems, bind_eq_ok_iff]
  constructor
  · intro h
    obtain ⟨op?, hop, later, hlater, h⟩ := h
    refine ⟨op?, later, hop, hlater, ?_⟩
    cases op? <;> simpa using h.symm
  · intro h
    obtain ⟨op?, later, hop, hlater, rfl⟩ := h
    refine ⟨op?, hop, later, hlater, ?_⟩
    cases op? <;> simp

theorem exists_instr_of_mem_ops {program : Program} {function : Function}
    {all items : List (Nat × Instruction)} {ops : List OpAt}
    (h : translateItems program function all items = .ok ops) {opAt : OpAt} (hmem : opAt ∈ ops) :
    ∃ instr, (opAt.offset, instr) ∈ items ∧
      translateInstr program function all opAt.offset instr = .ok (some opAt.op) := by
  induction items generalizing ops with
  | nil =>
    cases h
    cases hmem
  | cons item items ih =>
    obtain ⟨offset, instr⟩ := item
    obtain ⟨op?, later, hop, hlater, rfl⟩ := translateItems_cons_eq_ok_iff.1 h
    rcases List.mem_append.1 hmem with hmem | hmem
    · obtain ⟨op, rfl, rfl⟩ := Option.map_eq_some_iff.1 (Option.mem_toList.1 hmem)
      exact ⟨instr, List.mem_cons_self, hop⟩
    · obtain ⟨found, hfound, htranslate⟩ := ih hlater hmem
      exact ⟨found, List.mem_cons_of_mem _ hfound, htranslate⟩

variable {program : Program} {code : ThreadedCode} {place offset : Nat}

theorem exists_instr_of_translate {function : Function} (h : translate program function = .ok code)
    {opAt : OpAt} (hmem : opAt ∈ code.ops) :
    ∃ instr, Instruction.decode function.code opAt.offset = .ok instr ∧
      translateInstr program function (Listing.ofCode function.code).items opAt.offset instr =
        .ok (some opAt.op) := by
  unfold translate at h
  simp only at h
  split at h
  · cases h
  · obtain ⟨ops, hops, h⟩ := bind_eq_ok_iff.1 h
    cases h
    obtain ⟨instr, hitem, hop⟩ := exists_instr_of_mem_ops hops (by simpa using hmem)
    exact ⟨instr, Listing.decode_of_mem_items hitem, hop⟩

theorem Aligned.standing (h : Aligned program code place offset) :
    Standing program code place offset := by
  by_cases hlt : offset < code.function.code.size
  · obtain ⟨instr, hd, hitem, hread⟩ := Listing.exists_ofOffset_eq_item hlt h.readable
    have hle := Instruction.offset_add_le_of_decode hd
    have hrest := h.rest
    rw [hitem, Listing.items, translateItems_cons_eq_ok_iff] at hrest
    obtain ⟨op?, later, hop, hlater, hdrop⟩ := hrest
    cases op? with
    | none =>
      rw [translateInstr_eq_none_iff] at hop
      subst hop
      refine .skipped hd ⟨hle, hread, ?_⟩
      rw [hdrop]
      exact hlater
    | some op =>
      simp only [Option.map_some, Option.toList_some, List.singleton_append] at hdrop
      have hplace : code.ops[place]? = some ⟨op, offset⟩ := by
        have h0 := congrArg (·[0]?) hdrop
        simpa using h0
      refine .operation instr op ?_ hd hplace hop ⟨hle, hread, ?_⟩
      · intro hnop
        simp [translateInstr_eq_none_iff.2 hnop] at hop
      · have htail := congrArg List.tail hdrop
        rw [List.tail_drop, List.tail_cons] at htail
        rw [htail]
        exact hlater
  · have hsize : offset = code.function.code.size := by
      have := h.le_size
      omega
    have hrest := h.rest
    rw [hsize, Listing.ofOffset_size, Listing.items, translateItems, Except.ok.injEq] at hrest
    have hplace : code.ops.size ≤ place := by simpa using hrest.symm
    exact .finished (by simp [hsize]) (by simpa using hplace) hsize

theorem aligned_zero {function : Function} (h : translate program function = .ok code) :
    code.function = function ∧ Aligned program code 0 0 := by
  unfold translate at h
  simp only at h
  split at h
  · cases h
  · rename_i hread
    obtain ⟨ops, hops, h⟩ := bind_eq_ok_iff.1 h
    cases h
    exact ⟨rfl, Nat.zero_le _, hread, by rw [List.drop_zero]; exact hops⟩

theorem translateItems_of_opNumber? {bytes : Array UInt8} {function : Function}
    {all : List (Nat × Instruction)} {offset target n : Nat} {ops : List OpAt}
    (hle : offset ≤ bytes.size) (hread : (Listing.ofOffset bytes offset).error? = none)
    (hops : translateItems program function all (Listing.ofOffset bytes offset).items = .ok ops)
    (hn : opNumber? (Listing.ofOffset bytes offset).items target = some n) :
    target ≤ bytes.size ∧ (Listing.ofOffset bytes target).error? = none ∧
      translateItems program function all (Listing.ofOffset bytes target).items =
        .ok (ops.drop n) := by
  fun_induction Listing.ofOffset bytes offset generalizing n ops with
  | case1 offset hlt error hd => simp [Listing.error?] at hread
  | case2 offset hlt instr hd ih =>
    have hend := Instruction.offset_add_le_of_decode hd
    rw [Listing.items, translateItems_cons_eq_ok_iff] at hops
    obtain ⟨op?, later, hop, hlater, rfl⟩ := hops
    rw [Listing.items, opNumber?] at hn
    by_cases ht : offset = target
    · subst ht
      rw [if_pos rfl, Option.some.injEq] at hn
      subst hn
      rw [Listing.ofOffset, if_pos hlt]
      simp only [hd]
      refine ⟨hle, hread, ?_⟩
      rw [List.drop_zero, Listing.items, translateItems_cons_eq_ok_iff]
      exact ⟨op?, later, hop, hlater, rfl⟩
    · rw [if_neg ht, Option.map_eq_some_iff] at hn
      obtain ⟨m, hm, rfl⟩ := hn
      obtain ⟨hsize, herror, hdrop⟩ := ih hend hread hlater hm
      refine ⟨hsize, herror, ?_⟩
      rw [hdrop]
      -- An instruction counts for the numbering if and only if an operation stands for it.
      cases op? with
      | none => simp [translateInstr_eq_none_iff.1 hop]
      | some op =>
        have hnop : instr ≠ .nop := by
          intro hnop
          simp [translateInstr_eq_none_iff.2 hnop] at hop
        simp [hnop]
  | case3 offset hge => simp [Listing.items, opNumber?] at hn

theorem Aligned.goto {function : Function} (h : translate program function = .ok code)
    {value : Int64} {n : Nat}
    (hn : goto? (Listing.ofCode code.function.code).items value = some n) :
    ∃ target, Word.toIndex? value = some target ∧ Aligned program code n target := by
  obtain ⟨-, hzero⟩ := aligned_zero h
  obtain ⟨target, ht, hn⟩ := Option.bind_eq_some_iff.1 hn
  obtain ⟨hle, hread, hrest⟩ :=
    translateItems_of_opNumber? hzero.le_size hzero.readable hzero.rest hn
  exact ⟨target, ht, hle, hread, by simpa using hrest⟩

end TieredVM.ThreadedCode
