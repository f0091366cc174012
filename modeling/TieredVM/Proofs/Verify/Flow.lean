import TieredVM.Proofs.Verify.Accepted
set_option autoImplicit false

namespace TieredVM.Function

/-- The instruction that stands at an offset finds there, at the given depth, all that it needs. -/
structure Allows (program : Program) (function : Function) (summary : StackSummary)
    (offset depth : Nat) (instr : Instruction) : Prop where
  decoded : Instruction.decode function.code offset = .ok instr
  popped : instr.pops ≤ depth
  returned : instr = .ret → depth = 1
  flows : instr.opcode.isTerminal = false →
    summary.depths[offset + instr.encodedLength]? = some (instr.after depth)
  jumps : ∀ target, instr.jumpTarget? = some target → ∃ place,
    Word.toIndex? target = some place ∧ summary.depths[place]? = some (instr.after depth)
  locals : ∀ slot, instr.local? = some slot → ∃ n,
    Word.toIndex? slot = some n ∧ n < function.localCount
  args : ∀ arg, instr = .pushArg arg → ∃ n, Word.toIndex? arg = some n ∧ n < function.argCount
  calls : ∀ callee args, instr = .call callee args → ∃ n found,
    Word.toIndex? callee = some n ∧ program.function? n = some found ∧
      Word.toIndex? args = some found.argCount
  strings : ∀ id, instr = .printString id → ∃ text,
    (Word.toIndex? id).bind program.string? = some text

variable {program : Program} {function : Function} {summary : StackSummary} {offset depth : Nat}

open StackDepth in
theorem Checked.exists_typing (h : function.Checked program summary) :
    ∃ instrs depths, WellFormed function.code instrs ∧ Typing instrs depths ∧
      summary.Describes instrs depths ∧
      Listing.ofCode function.code = Listing.ofInstructions 0 instrs := by
  obtain ⟨instrs, depths, hw, ht⟩ := StackDepth.exists_typing h.simulated
  obtain ⟨found, hfound, hdescribes⟩ := exists_describes hw ht
  rw [h.simulated] at hfound
  cases hfound
  refine ⟨instrs, depths, hw, ht, hdescribes, ?_⟩
  exact Listing.ofOffset_eq_ofInstructions (by rw [List.drop_zero, hw.encoded])

theorem Checked.first (h : function.Checked program summary) : summary.depths[0]? = some 0 := by
  obtain ⟨instrs, depths, hw, ht, hdescribes, -⟩ := h.exists_typing
  obtain ⟨last, hlast, -⟩ := hw.closed
  refine (hdescribes.depths 0 0).2 ⟨?_, ht.first.symm⟩
  cases instrs with
  | nil => simp at hlast
  | cons first rest => exact Listing.mem_starts_iff.2 ⟨first, List.mem_cons_self⟩

theorem Checked.depth_le (h : function.Checked program summary)
    (hdepth : summary.depths[offset]? = some depth) : depth ≤ function.maxStackDepth := by
  obtain ⟨instrs, depths, hw, ht, hdescribes, -⟩ := h.exists_typing
  obtain ⟨hstart, rfl⟩ := (hdescribes.depths offset depth).1 hdepth
  rw [← h.maxStackDepth]
  exact hdescribes.depth_le offset hstart

theorem Checked.exists_item (h : function.Checked program summary)
    (hdepth : summary.depths[offset]? = some depth) :
    ∃ instr, (offset, instr) ∈ (Listing.ofCode function.code).items ∧
      function.Allows program summary offset depth instr := by
  obtain ⟨instrs, depths, hw, ht, hdescribes, hlisting⟩ := h.exists_typing
  obtain ⟨hstart, rfl⟩ := (hdescribes.depths offset depth).1 hdepth
  obtain ⟨instr, hplaced⟩ := Listing.mem_starts_iff.1 hstart
  have hitem : (offset, instr) ∈ (Listing.ofCode function.code).items := hlisting ▸ hplaced
  have hrange := hw.operands instr (Listing.mem_of_mem_items hplaced)
  refine ⟨instr, hitem, Listing.decode_of_mem_items hitem, ht.popped offset instr hplaced, ?_, ?_,
    ?_, ?_, ?_, ?_, ?_⟩
  · intro hret
    subst hret
    exact ht.returned offset hplaced
  · intro hterm
    refine (hdescribes.depths _ _).2 ⟨?_, (ht.flows offset instr hplaced hterm).symm⟩
    rcases Listing.mem_offsets_or_last hplaced with hnext | hlast
    · exact hnext
    · obtain ⟨last, hl, hterminal⟩ := hw.closed
      rw [hlast] at hl
      cases hl
      simp [hterm] at hterminal
  · intro target htarget
    obtain ⟨place, hplace, hmem⟩ := hw.targets offset instr target hplaced htarget
    refine ⟨place, hplace, (hdescribes.depths _ _).2 ⟨hmem, ?_⟩⟩
    exact (ht.jumps offset instr target place hplaced htarget hplace).symm
  · intro slot hslot
    have hbounds := hrange.of_local? hslot
    have hlt := hdescribes.local_lt instr (Listing.mem_of_mem_items hplaced) slot hslot
    rw [h.localCount] at hlt
    exact ⟨_, Word.toIndex?_of_nonneg hbounds.1, by omega⟩
  · intro arg harg
    subst harg
    have hindex := Word.toIndex?_of_nonneg hrange
    exact ⟨_, hindex, h.args offset arg _ hitem hindex⟩
  · intro callee args hcall
    subst hcall
    obtain ⟨found, hfound, hargs⟩ := h.calls offset callee args hitem
    obtain ⟨n, hn, hfunction⟩ := Option.bind_eq_some_iff.1 hfound
    exact ⟨n, found, hn, hfunction, hargs hrange⟩
  · intro id hprint
    subst hprint
    exact h.strings offset id hitem

theorem Checked.allows (h : function.Checked program summary)
    (hdepth : summary.depths[offset]? = some depth) :
    ∃ instr, function.Allows program summary offset depth instr := by
  obtain ⟨instr, -, hallows⟩ := h.exists_item hdepth
  exact ⟨instr, hallows⟩

end TieredVM.Function
