import Mathlib.Data.Finset.Card
import Mathlib.Data.Finset.Range
import Mathlib.Logic.Relation
import TieredVM.Instruction.Listing
import TieredVM.Program.Basic
set_option autoImplicit false

namespace TieredVM.Program

def Calls (program : Program) (caller callee : Nat) : Prop :=
  ∃ function offset word args, program.function? caller = some function ∧
    (offset, Instruction.call word args) ∈ (Listing.ofCode function.code).items ∧
    Word.toIndex? word = some callee

/-- No function calls itself, directly or through others. -/
def Acyclic (program : Program) : Prop := ∀ id, ¬ Relation.TransGen program.Calls id id

open Classical in
noncomputable def below (program : Program) (id : Nat) : Finset Nat :=
  (Finset.range program.functions.size).filter (Relation.TransGen program.Calls id)

variable {program : Program} {caller callee id : Nat}

def callee? : Instruction → Option Nat
  | .call word _ => Word.toIndex? word
  | _ => none

theorem acyclic_of_lt (h : ∀ caller callee, program.Calls caller callee → caller < callee) :
    program.Acyclic := by
  intro id hid
  have hlt : ∀ later, Relation.TransGen program.Calls id later → id < later := by
    intro later hlater
    induction hlater with
    | single hcalls => exact h _ _ hcalls
    | tail _ hcalls ih => exact Nat.lt_trans ih (h _ _ hcalls)
  exact Nat.lt_irrefl id (hlt id hid)

theorem acyclic_of_callees_lt (h : ∀ id < program.functions.size,
    ∀ function ∈ program.function? id, ∀ item ∈ (Listing.ofCode function.code).items,
      ∀ called ∈ callee? item.2, id < called) : program.Acyclic := by
  refine acyclic_of_lt ?_
  rintro caller callee ⟨function, offset, word, args, hfunction, hitem, hword⟩
  have hlt := (Array.getElem?_eq_some_iff.1 hfunction).1
  exact h caller hlt function hfunction (offset, .call word args) hitem callee hword

theorem mem_below :
    id ∈ program.below caller ↔
      id < program.functions.size ∧ Relation.TransGen program.Calls caller id := by
  simp [below]

theorem Acyclic.card_below_lt (h : program.Acyclic) (hid : id < program.functions.size) :
    (program.below id).card < program.functions.size := by
  have hsub : program.below id ⊆ Finset.range program.functions.size :=
    fun other hother => Finset.mem_range.2 (mem_below.1 hother).1
  have hlt : program.below id ⊂ Finset.range program.functions.size := by
    refine (Finset.ssubset_iff_of_subset hsub).2 ⟨id, Finset.mem_range.2 hid, ?_⟩
    exact fun hmem => h id (mem_below.1 hmem).2
  simpa using Finset.card_lt_card hlt

theorem Acyclic.card_below_lt_of_calls (h : program.Acyclic) (hcalls : program.Calls caller callee)
    (hcallee : callee < program.functions.size) :
    (program.below callee).card < (program.below caller).card := by
  have hsub : program.below callee ⊆ program.below caller := by
    intro id hid
    obtain ⟨hlt, hreach⟩ := mem_below.1 hid
    exact mem_below.2 ⟨hlt, .head hcalls hreach⟩
  refine Finset.card_lt_card ((Finset.ssubset_iff_of_subset hsub).2 ⟨callee, ?_, ?_⟩)
  · exact mem_below.2 ⟨hcallee, .single hcalls⟩
  · exact fun hmem => h callee (mem_below.1 hmem).2

end TieredVM.Program
