import Mathlib.Data.List.Basic
import Mathlib.Tactic.Common
import TieredVM.Proofs.Except
import TieredVM.Proofs.Verify.Typing
import TieredVM.Proofs.Word
set_option autoImplicit false

namespace TieredVM.StackDepth
open Listing

theorem index_eq_ok_iff {offset n : Nat} {value : Int64} :
    index offset value = .ok n ↔ Word.toIndex? value = some n := by
  unfold index
  split <;> simp_all

theorem stackEffect_eq_ok_iff {offset : Nat} {instr : Instruction} {effect : Nat × Nat} :
    stackEffect offset instr = .ok effect ↔
      (∀ function args, instr = .call function args → 0 ≤ args.toInt) ∧
      effect = (instr.pops, instr.pushes) := by
  cases instr with
  | call function args =>
    simp only [stackEffect, bind_eq_ok_iff, index_eq_ok_iff, pure_eq_ok, Except.ok.injEq]
    constructor
    · intro h
      obtain ⟨n, hn, rfl⟩ := h
      obtain ⟨hpos, rfl⟩ := Word.nonneg_of_toIndex? hn
      refine ⟨fun _ _ heq => ?_, rfl⟩
      cases heq
      exact hpos
    · intro h
      obtain ⟨hpos, rfl⟩ := h
      exact ⟨_, Word.toIndex?_of_nonneg (hpos _ _ rfl), rfl⟩
  | _ => simp [stackEffect, Instruction.pops, Instruction.pushes, eq_comm]

theorem depthAfter_eq_ok_iff {offset depth n : Nat} {instr : Instruction} :
    depthAfter offset instr depth = .ok n ↔
      (∀ function args, instr = .call function args → 0 ≤ args.toInt) ∧
      (instr = .ret → depth = 1) ∧ instr.pops ≤ depth ∧ n = instr.after depth := by
  unfold depthAfter
  by_cases hret : instr = .ret ∧ depth ≠ 1
  · simp [hret]
  · have hone : instr = .ret → depth = 1 := fun h => by
      by_contra hne
      exact hret ⟨h, hne⟩
    simp only [hret, if_false, pure_eq_ok, bind_eq_ok_iff, stackEffect_eq_ok_iff]
    constructor
    · intro h
      obtain ⟨effect, ⟨hcall, rfl⟩, h⟩ := h
      split at h
      · simp at h
      · exact ⟨hcall, hone, by omega, by simpa [Instruction.after] using h.symm⟩
    · intro h
      obtain ⟨hcall, -, hle, rfl⟩ := h
      exact ⟨_, ⟨hcall, rfl⟩, by simp [Instruction.after, Nat.not_lt.2 hle]⟩

theorem localSlot_eq_ok_iff {offset n : Nat} {value : Int64} :
    localSlot offset value = .ok n ↔ Word.toIndex? value = some n ∧ n < maxLocals := by
  unfold localSlot
  cases h : Word.toIndex? value with
  | none => simp
  | some m =>
    by_cases hm : m < maxLocals
    · simp [Option.filter, hm]
      intro hn
      exact hn ▸ hm
    · simp [Option.filter, hm]
      intro heq
      subst heq
      omega

theorem operands_ok_iff {offset n : Nat} {instr : Instruction} :
    (∀ function args, instr = .call function args → 0 ≤ args.toInt) ∧
      localsNeeded offset instr = .ok n ↔ instr.InRange ∧ n = instr.localsUsed := by
  have hslot : ∀ slot : Int64, (do
      let _ ← index offset slot
      return (← localSlot offset slot) + 1) = Except.ok (ε := Defect) n ↔
      (0 ≤ slot.toInt ∧ slot.toInt ≤ 65535) ∧ n = slot.toInt.toNat + 1 := by
    intro slot
    simp only [bind_eq_ok_iff, index_eq_ok_iff, localSlot_eq_ok_iff, pure_eq_ok, Except.ok.injEq,
      maxLocals]
    constructor
    · intro h
      obtain ⟨_, _, m, ⟨hm, hlt⟩, rfl⟩ := h
      obtain ⟨hpos, rfl⟩ := Word.nonneg_of_toIndex? hm
      omega
    · intro h
      obtain ⟨⟨hpos, hle⟩, rfl⟩ := h
      exact ⟨_, Word.toIndex?_of_nonneg hpos, _, ⟨Word.toIndex?_of_nonneg hpos, by omega⟩, rfl⟩
  cases instr with
  | pushLocal slot => simpa [localsNeeded, Instruction.InRange, Instruction.localsUsed,
      Instruction.local?] using hslot slot
  | popLocal slot => simpa [localsNeeded, Instruction.InRange, Instruction.localsUsed,
      Instruction.local?] using hslot slot
  | pushArg arg =>
    simp only [localsNeeded, bind_eq_ok_iff, index_eq_ok_iff, pure_eq_ok, Except.ok.injEq,
      Instruction.InRange, Instruction.localsUsed, Instruction.local?]
    constructor
    · intro h
      obtain ⟨_, m, hm, rfl⟩ := h
      exact ⟨(Word.nonneg_of_toIndex? hm).1, rfl⟩
    · intro h
      obtain ⟨hpos, rfl⟩ := h
      exact ⟨by simp, _, Word.toIndex?_of_nonneg hpos, rfl⟩
  | call function args =>
    simp [localsNeeded, Instruction.InRange, Instruction.localsUsed, Instruction.local?, eq_comm]
  | _ => simp [localsNeeded, Instruction.InRange, Instruction.localsUsed, Instruction.local?,
      eq_comm]

theorem arrive_eq_ok_iff {offset depth : Nat} {flow recorded : Option Nat} :
    arrive offset flow recorded = .ok depth ↔
      (flow = none → recorded ≠ none) ∧
      (∀ n, flow = some n → n = depth) ∧ (∀ n, recorded = some n → n = depth) := by
  cases flow with
  | none => cases recorded <;> simp [arrive]
  | some found =>
    cases recorded with
    | none => simp [arrive]
    | some expected =>
      by_cases h : found = expected
      · simp [arrive, h]
      · simp only [arrive, h, if_false, reduceCtorEq, false_iff, Option.some.injEq, forall_eq']
        intro heq
        exact h (heq.2.1.trans heq.2.2.symm)

namespace Walk

/-- The walk after it has seen an instruction, apart from where that jumps to. -/
def seen (walk : Walk) (offset : Nat) (instr : Instruction) (depth : Nat) : Walk :=
  { walk with
    depths := walk.depths.insert offset depth
    maxStackDepth := max walk.maxStackDepth (instr.after depth)
    localCount := max walk.localCount instr.localsUsed }

def jumped (walk : Walk) (offset place depth : Nat) : Walk :=
  { walk with
    depths := match walk.depths[place]? with
      | some _ => walk.depths
      | none => walk.depths.insert place depth
    ahead := if offset < place then (offset, place) :: walk.ahead else walk.ahead }

theorem getElem?_insert_depth (depths : Std.TreeMap Nat Nat) (place depth k : Nat) :
    (depths.insert place depth)[k]? = if k = place then some depth else depths[k]? := by
  rw [Std.TreeMap.getElem?_insert]
  simp only [Nat.compare_eq_eq, @eq_comm Nat place k]

theorem getElem?_seen (walk : Walk) (offset : Nat) (instr : Instruction) (depth k : Nat) :
    (walk.seen offset instr depth).depths[k]? =
      if k = offset then some depth else walk.depths[k]? :=
  getElem?_insert_depth _ _ _ _

theorem getElem?_jumped {walk : Walk} {place depth : Nat}
    (h : ∀ n, walk.depths[place]? = some n → n = depth) (offset k : Nat) :
    (walk.jumped offset place depth).depths[k]? =
      if k = place then some depth else walk.depths[k]? := by
  unfold jumped
  cases hp : walk.depths[place]? with
  | none => exact getElem?_insert_depth _ _ _ _
  | some n =>
    have hn := h n hp
    by_cases hk : k = place
    · simp [hk, hp, hn]
    · simp [hk]

theorem jump_eq_ok_iff {walk result : Walk} {size offset depth : Nat} {target : Int64} :
    walk.jump size offset target depth = .ok result ↔
      ∃ place, Word.toIndex? target = some place ∧ place < size ∧
        (∀ n, walk.depths[place]? = some n → n = depth) ∧
        (walk.depths[place]? = none → offset < place) ∧
        result = walk.jumped offset place depth := by
  unfold jump
  cases ht : Word.toIndex? target with
  | none => simp
  | some place =>
    by_cases hs : place < size
    · simp only [Option.filter_some, hs, decide_true, if_true, jumped, Option.some.injEq,
        exists_eq_left', true_and]
      cases hp : walk.depths[place]? with
      | some expected =>
        by_cases he : expected = depth
        · simp [he, eq_comm]
        · simp [he]
      | none =>
        by_cases hl : place ≤ offset
        · simp [hl, Nat.not_lt.2 hl]
        · simp [hl, Nat.lt_of_not_le hl, eq_comm]
    · simp [Option.filter_some, hs]

/-- The walk leads on from an instruction without a defect. -/
structure Passes (size offset : Nat) (instr : Instruction) (flow : Option Nat) (walk : Walk)
    (depth : Nat) (result : Walk) : Prop where
  reached : flow = none → walk.depths[offset]? ≠ none
  flows : ∀ n, flow = some n → n = depth
  recorded : ∀ n, walk.depths[offset]? = some n → n = depth
  inRange : instr.InRange
  returned : instr = .ret → depth = 1
  popped : instr.pops ≤ depth
  result : match instr.jumpTarget? with
    | none => result = walk.seen offset instr depth
    | some target => ∃ place, Word.toIndex? target = some place ∧ place < size ∧
        (∀ n, (walk.seen offset instr depth).depths[place]? = some n → n = instr.after depth) ∧
        ((walk.seen offset instr depth).depths[place]? = none → offset < place) ∧
        result = (walk.seen offset instr depth).jumped offset place (instr.after depth)

def flowAfter (instr : Instruction) (depth : Nat) : Option Nat :=
  if instr.opcode.isTerminal then none else some (instr.after depth)

theorem visit_eq_ok_iff {size offset depth : Nat} {instr : Instruction} {walk result : Walk}
    {flow : Option Nat} :
    ({ walk with depths := walk.depths.insert offset depth } : Walk).visit size offset instr depth =
        .ok (flow, result) ↔
      instr.InRange ∧ (instr = .ret → depth = 1) ∧ instr.pops ≤ depth ∧
        flow = flowAfter instr depth ∧
        match instr.jumpTarget? with
        | none => result = walk.seen offset instr depth
        | some target =>
          (walk.seen offset instr depth).jump size offset target (instr.after depth) =
            .ok result := by
  simp only [visit, bind_eq_ok_iff, depthAfter_eq_ok_iff]
  constructor
  · intro h
    obtain ⟨after, ⟨hcall, hret, hpop, rfl⟩, needed, hneeded, h⟩ := h
    obtain ⟨hrange, rfl⟩ := operands_ok_iff.1 ⟨hcall, hneeded⟩
    refine ⟨hrange, hret, hpop, ?_⟩
    cases ht : instr.jumpTarget? with
    | none =>
      simp only [ht, pure_eq_ok, Except.ok.injEq, Prod.mk.injEq] at h
      exact ⟨h.1.symm, h.2.symm⟩
    | some target =>
      simp only [ht, bind_eq_ok_iff, pure_eq_ok, Except.ok.injEq, Prod.mk.injEq] at h
      obtain ⟨found, hj, rfl, rfl⟩ := h
      exact ⟨rfl, hj⟩
  · intro h
    obtain ⟨hrange, hret, hpop, rfl, h⟩ := h
    obtain ⟨hcall, hneeded⟩ := operands_ok_iff.2 ⟨hrange, rfl⟩
    refine ⟨_, ⟨hcall, hret, hpop, rfl⟩, _, hneeded, ?_⟩
    cases ht : instr.jumpTarget? with
    | none =>
      simp only [ht] at h
      subst h
      rfl
    | some target =>
      simp only [ht] at h
      simp only [pure_eq_ok, bind_eq_ok_iff]
      exact ⟨result, h, rfl⟩

theorem passes_iff {size offset depth : Nat} {instr : Instruction} {flow next : Option Nat}
    {walk result : Walk} :
    arrive offset flow walk.depths[offset]? = .ok depth ∧
        ({ walk with depths := walk.depths.insert offset depth } : Walk).visit size offset instr
          depth = .ok (next, result) ↔
      Passes size offset instr flow walk depth result ∧ next = flowAfter instr depth := by
  rw [arrive_eq_ok_iff, visit_eq_ok_iff]
  constructor
  · intro h
    obtain ⟨⟨h1, h2, h3⟩, hrange, hret, hpop, hnext, h⟩ := h
    refine ⟨⟨h1, h2, h3, hrange, hret, hpop, ?_⟩, hnext⟩
    cases ht : instr.jumpTarget? with
    | none => simpa only [ht] using h
    | some target =>
      simp only [ht] at h
      exact jump_eq_ok_iff.1 h
  · intro h
    obtain ⟨hp, hnext⟩ := h
    refine ⟨⟨hp.reached, hp.flows, hp.recorded⟩, hp.inRange, hp.returned, hp.popped, hnext, ?_⟩
    have h := hp.result
    cases ht : instr.jumpTarget? with
    | none => simpa only [ht] using h
    | some target =>
      simp only [ht] at h
      exact jump_eq_ok_iff.2 h

theorem through_item_eq_ok_iff {size offset : Nat} {instr : Instruction} {rest : Listing}
    {flow : Option Nat} {walk final : Walk} :
    through size (.item offset instr rest) flow walk = .ok final ↔
      ∃ depth result, Passes size offset instr flow walk depth result ∧
        through size rest (flowAfter instr depth) result = .ok final := by
  simp only [through, bind_eq_ok_iff]
  constructor
  · intro h
    obtain ⟨depth, harrive, ⟨next, result⟩, hvisit, hrest⟩ := h
    obtain ⟨hp, rfl⟩ := passes_iff.1 ⟨harrive, hvisit⟩
    exact ⟨depth, result, hp, hrest⟩
  · intro h
    obtain ⟨depth, result, hp, hrest⟩ := h
    obtain ⟨harrive, hvisit⟩ := passes_iff.2 ⟨hp, rfl⟩
    exact ⟨depth, harrive, _, hvisit, hrest⟩

end Walk
end TieredVM.StackDepth
