import Mathlib.Data.List.Basic
import Mathlib.Tactic.Common
import TieredVM.Proofs.Verify.Walk
set_option autoImplicit false

namespace TieredVM.StackDepth
open Listing

namespace Walk

/-- What a walk over a row of instructions from an offset on leaves behind. The facts about the
instructions are in terms of the final depths, since later ones are never changed. -/
structure Covers (offset : Nat) (instrs : List Instruction) (flow : Option Nat)
    (walk final : Walk) : Prop where
  depths : ∀ k n : Nat, walk.depths[k]? = some n → final.depths[k]? = some n
  jumps : ∀ jump ∈ walk.ahead, jump ∈ final.ahead
  flow_eq : ∀ n, flow = some n → final.depths[offset]? = some n
  flow_end : instrs = [] → flow = none
  last : ∀ instr, instrs.getLast? = some instr → instr.opcode.isTerminal = true
  reached : flow = none → instrs ≠ [] → walk.depths[offset]? ≠ none
  typed : ∀ k instr, (k, instr) ∈ (ofInstructions offset instrs).items →
    instr.InRange ∧ ∃ n, final.depths[k]? = some n ∧ instr.pops ≤ n ∧ (instr = .ret → n = 1) ∧
      (instr.opcode.isTerminal = false →
        final.depths[k + instr.encodedLength]? = some (instr.after n)) ∧
      ∀ target, instr.jumpTarget? = some target →
        ∃ place, Word.toIndex? target = some place ∧ final.depths[place]? = some (instr.after n)
  keys : ∀ k n, final.depths[k]? = some n → walk.depths[k]? = some n ∨
    k ∈ (ofInstructions offset instrs).offsets ∨ ∃ source, (source, k) ∈ final.ahead
  sources : ∀ source place, (source, place) ∈ final.ahead → (source, place) ∈ walk.ahead ∨
    source < place ∧ ∃ instr target, (source, instr) ∈ (ofInstructions offset instrs).items ∧
      instr.jumpTarget? = some target ∧ Word.toIndex? target = some place
  entered : ∀ k instr, (k, instr) ∈ (ofInstructions offset instrs).items →
    instr.opcode.isTerminal = true →
    k + instr.encodedLength ∈ (ofInstructions offset instrs).offsets →
    ∃ source, (source, k + instr.encodedLength) ∈ final.ahead

/-- A depth on record belongs to an instruction that the walk has passed or to a jump ahead. -/
def Grounded (walk : Walk) (offset : Nat) : Prop :=
  ∀ k n, walk.depths[k]? = some n → k < offset ∨ ∃ source, (source, k) ∈ walk.ahead

structure Advances (offset : Nat) (instr : Instruction) (walk : Walk) (depth : Nat)
    (result : Walk) : Prop where
  depths : ∀ k n : Nat, walk.depths[k]? = some n → result.depths[k]? = some n
  here : result.depths[offset]? = some depth
  jumps : ∀ jump ∈ walk.ahead, jump ∈ result.ahead
  target : ∀ target, instr.jumpTarget? = some target →
    ∃ place, Word.toIndex? target = some place ∧ result.depths[place]? = some (instr.after depth)
  keys : ∀ k n, result.depths[k]? = some n → walk.depths[k]? = some n ∨ k = offset ∨
    (offset, k) ∈ result.ahead ∧ n = instr.after depth ∧
      ∃ target, instr.jumpTarget? = some target ∧ Word.toIndex? target = some k
  sources : ∀ source place, (source, place) ∈ result.ahead → (source, place) ∈ walk.ahead ∨
    source = offset ∧ offset < place ∧ ∃ target, instr.jumpTarget? = some target ∧
      Word.toIndex? target = some place
  maxStackDepth : result.maxStackDepth = max walk.maxStackDepth (instr.after depth)
  localCount : result.localCount = max walk.localCount instr.localsUsed

section Passing

variable {size offset depth : Nat} {instr : Instruction} {flow : Option Nat} {walk result : Walk}

theorem Passes.getElem?_seen_of_some (h : Passes size offset instr flow walk depth result)
    {k n : Nat} (hk : walk.depths[k]? = some n) :
    (walk.seen offset instr depth).depths[k]? = some n := by
  rw [getElem?_seen]
  split
  · subst k
    rw [h.recorded n hk]
  · exact hk

theorem getElem?_seen_self (walk : Walk) (offset : Nat) (instr : Instruction) (depth : Nat) :
    (walk.seen offset instr depth).depths[offset]? = some depth := by
  simp [getElem?_seen]

theorem eq_of_getElem?_seen {k n : Nat}
    (hk : (walk.seen offset instr depth).depths[k]? = some n) :
    walk.depths[k]? = some n ∨ k = offset := by
  rw [getElem?_seen] at hk
  split at hk
  · exact .inr ‹_›
  · exact .inl hk

theorem Passes.advances_of_none (h : Passes size offset instr flow walk depth result)
    (ht : instr.jumpTarget? = none) : Advances offset instr walk depth result := by
  have hr := h.result
  simp only [ht] at hr
  subst hr
  refine ⟨fun k n => h.getElem?_seen_of_some, getElem?_seen_self walk offset instr depth,
    fun jump hj => hj, ?_, ?_, fun source place hs => .inl hs, rfl, rfl⟩
  · intro target htarget
    rw [ht] at htarget
    cases htarget
  · intro k n hk
    exact (eq_of_getElem?_seen hk).imp_right .inl

theorem Passes.advances_of_some (h : Passes size offset instr flow walk depth result)
    {target : Int64} (ht : instr.jumpTarget? = some target) :
    Advances offset instr walk depth result := by
  have hr := h.result
  simp only [ht] at hr
  obtain ⟨place, hplace, -, hagree, hahead, rfl⟩ := hr
  have hget := getElem?_jumped hagree offset
  refine ⟨?_, ?_, ?_, ?_, ?_, ?_, rfl, rfl⟩
  · intro k n hk
    have hseen := h.getElem?_seen_of_some hk
    rw [hget]
    split
    · subst k
      rw [hagree n hseen]
    · exact hseen
  · rw [hget]
    split
    · rename_i heq
      subst heq
      exact congrArg some (hagree depth (getElem?_seen_self walk offset instr depth)).symm
    · exact getElem?_seen_self walk offset instr depth
  · intro jump hj
    simp only [jumped]
    split
    · exact List.mem_cons_of_mem _ hj
    · exact hj
  · intro target' htarget
    rw [ht] at htarget
    cases htarget
    exact ⟨place, hplace, by simp [hget]⟩
  · intro k n hk
    rw [hget] at hk
    split at hk
    · subst k
      by_cases hp : (walk.seen offset instr depth).depths[place]? = none
      · have hmem : (offset, place) ∈ ((walk.seen offset instr depth).jumped offset place
            (instr.after depth)).ahead := by
          simp [jumped, hahead hp]
        exact .inr (.inr ⟨hmem, (Option.some.inj hk).symm, target, ht, hplace⟩)
      · obtain ⟨m, hm⟩ := Option.ne_none_iff_exists'.1 hp
        rcases eq_of_getElem?_seen hm with hw | hw
        · rw [hagree m hm] at hw
          cases hk
          exact .inl hw
        -- The instruction jumps to itself.
        · exact .inr (.inl hw)
    · exact (eq_of_getElem?_seen hk).imp_right .inl
  · intro source place' hs
    simp only [jumped] at hs
    split at hs
    · rename_i hlt
      rcases List.mem_cons.1 hs with hs | hs
      · cases hs
        exact .inr ⟨rfl, hlt, target, ht, hplace⟩
      · exact .inl hs
    · exact .inl hs

theorem Passes.advances (h : Passes size offset instr flow walk depth result) :
    Advances offset instr walk depth result := by
  cases ht : instr.jumpTarget? with
  | none => exact h.advances_of_none ht
  | some target => exact h.advances_of_some ht

theorem Grounded.advance (hg : walk.Grounded offset) (h : Advances offset instr walk depth result) :
    result.Grounded (offset + instr.encodedLength) := by
  intro k n hk
  have hpos := instr.encodedLength_pos
  rcases h.keys k n hk with hw | rfl | ⟨ha, -⟩
  · rcases hg k n hw with hlt | ⟨source, hs⟩
    · exact .inl (by omega)
    · exact .inr ⟨source, h.jumps _ hs⟩
  · exact .inl (by omega)
  · exact .inr ⟨offset, ha⟩

variable {rest : List Instruction} {final : Walk}

theorem covers_nil (offset : Nat) (walk : Walk) : Covers offset [] none walk walk := by
  refine ⟨fun _ _ => id, fun _ => id, ?_, fun _ => rfl, ?_, ?_, ?_, fun _ _ => .inl,
    fun _ _ => .inl, ?_⟩
  all_goals simp [ofInstructions, items]

theorem Covers.entered_cons (hg : result.Grounded (offset + instr.encodedLength))
    (hr : Covers (offset + instr.encodedLength) rest (flowAfter instr depth) result final)
    {k : Nat} {found : Instruction}
    (hk : (k, found) ∈ (ofInstructions offset (instr :: rest)).items)
    (hfound : found.opcode.isTerminal = true)
    (hnext : k + found.encodedLength ∈ (ofInstructions offset (instr :: rest)).offsets) :
    ∃ source, (source, k + found.encodedLength) ∈ final.ahead := by
  have hpos := instr.encodedLength_pos
  obtain ⟨next, hnext⟩ := mem_offsets_iff.1 hnext
  rw [items_ofInstructions_cons, List.mem_cons] at hk hnext
  rcases hk with hk | hk
  · cases hk
    rcases hnext with hnext | hnext
    · injection hnext with hoff
      omega
    · have hne : rest ≠ [] := by
        intro heq
        subst heq
        simp [ofInstructions, items] at hnext
      -- Nothing flows on from here, so a jump has put the depth of the next instruction on record.
      have hflow : flowAfter instr depth = none := by simp [flowAfter, hfound]
      obtain ⟨m, hm⟩ := Option.ne_none_iff_exists'.1 (hr.reached hflow hne)
      rcases hg _ _ hm with hlt | ⟨source, hs⟩
      · omega
      · exact ⟨source, hr.jumps _ hs⟩
  · have hle := le_of_mem_items hk
    have hfpos := found.encodedLength_pos
    rcases hnext with hnext | hnext
    · injection hnext with hoff
      omega
    · exact hr.entered k found hk hfound (mem_offsets_iff.2 ⟨next, hnext⟩)

theorem Covers.cons (hg : walk.Grounded offset)
    (hp : Passes size offset instr flow walk depth result)
    (hr : Covers (offset + instr.encodedLength) rest (flowAfter instr depth) result final) :
    Covers offset (instr :: rest) flow walk final := by
  have ha := hp.advances
  refine
    { depths := fun k n hk => hr.depths k n (ha.depths k n hk)
      jumps := fun jump hj => hr.jumps jump (ha.jumps jump hj)
      flow_eq := fun n hn => ?_
      flow_end := by simp
      last := fun last hlast => ?_
      reached := fun hf _ => hp.reached hf
      typed := fun k found hk => ?_
      keys := fun k n hk => ?_
      sources := fun source place hs => ?_
      entered := fun k found => hr.entered_cons (hg.advance ha) }
  · rw [hp.flows n hn]
    exact hr.depths _ _ ha.here
  · cases rest with
    | nil =>
      simp only [List.getLast?_singleton, Option.some.injEq] at hlast
      subst hlast
      simpa [flowAfter] using hr.flow_end rfl
    | cons second tail =>
      rw [List.getLast?_cons_cons] at hlast
      exact hr.last last hlast
  · rw [items_ofInstructions_cons, List.mem_cons] at hk
    rcases hk with hk | hk
    · cases hk
      refine ⟨hp.inRange, depth, hr.depths _ _ ha.here, hp.popped, hp.returned, ?_, ?_⟩
      · intro hnt
        exact hr.flow_eq _ (by simp [flowAfter, hnt])
      · intro target ht
        obtain ⟨place, hplace, hd⟩ := ha.target target ht
        exact ⟨place, hplace, hr.depths _ _ hd⟩
    · exact hr.typed k found hk
  · rcases hr.keys k n hk with hw | hk | hk
    · rcases ha.keys k n hw with hw | rfl | ⟨hj, -⟩
      · exact .inl hw
      · exact .inr (.inl (mem_offsets_iff.2 ⟨instr, by simp⟩))
      · exact .inr (.inr ⟨offset, hr.jumps _ hj⟩)
    · obtain ⟨found, hf⟩ := mem_offsets_iff.1 hk
      exact .inr (.inl (mem_offsets_iff.2 ⟨found, by simp [hf]⟩))
    · exact .inr (.inr hk)
  · rcases hr.sources source place hs with hs | ⟨hlt, found, target, hf, ht, hplace⟩
    · rcases ha.sources source place hs with hs | ⟨rfl, hlt, target, ht, hplace⟩
      · exact .inl hs
      · exact .inr ⟨hlt, instr, target, by simp, ht, hplace⟩
    · exact .inr ⟨hlt, found, target, by simp [hf], ht, hplace⟩

end Passing

theorem covers_of_through {size offset : Nat} {instrs : List Instruction} {flow : Option Nat}
    {walk final : Walk} (hg : walk.Grounded offset)
    (h : through size (ofInstructions offset instrs) flow walk = .ok final) :
    Covers offset instrs flow walk final := by
  induction instrs generalizing offset flow walk with
  | nil =>
    cases flow with
    | some n => simp [ofInstructions, through] at h
    | none =>
      simp only [ofInstructions, through, Except.ok.injEq] at h
      subst h
      exact covers_nil offset walk
  | cons instr rest ih =>
    obtain ⟨depth, result, hp, hrest⟩ := through_item_eq_ok_iff.1 h
    exact .cons hg hp (ih (hg.advance hp.advances) hrest)

/-- A walk that has passed the typed instructions before an offset: what is on record are depths
of the typing, all those before the offset and at the targets of the jumps there. -/
structure Agrees (instrs : List Instruction) (depth : Nat → Nat) (offset : Nat)
    (flow : Option Nat) (walk : Walk) : Prop where
  recorded : ∀ k n, walk.depths[k]? = some n →
    k ∈ starts instrs ∧ n = depth k ∧ n ≤ walk.maxStackDepth
  passed : ∀ k, k ∈ starts instrs → k < offset → walk.depths[k]? = some (depth k)
  jumped : ∀ k instr target place, (k, instr) ∈ placed instrs → k < offset →
    instr.jumpTarget? = some target → Word.toIndex? target = some place →
    walk.depths[place]? = some (depth place)
  flow_eq : ∀ n, flow = some n → n = depth offset ∧ n ≤ walk.maxStackDepth
  stopped : flow = none → ∃ k instr, (k, instr) ∈ placed instrs ∧
    instr.opcode.isTerminal = true ∧ k + instr.encodedLength = offset
  ahead : ∀ jump ∈ walk.ahead, jump.2 ∈ starts instrs
  attained : ∃ k ∈ starts instrs, depth k = walk.maxStackDepth
  locals_le : ∀ k instr, (k, instr) ∈ placed instrs → k < offset →
    instr.localsUsed ≤ walk.localCount
  locals_eq : walk.localCount = 0 ∨ ∃ instr ∈ instrs, instr.localsUsed = walk.localCount

end Walk

section Typed
variable {code : Array UInt8} {instrs : List Instruction} {depth : Nat → Nat}

theorem WellFormed.lt_size (hw : WellFormed code instrs) {k : Nat} (hk : k ∈ starts instrs) :
    k < code.size := by
  obtain ⟨instr, h⟩ := mem_starts_iff.1 hk
  have hlt := lt_of_mem_items h
  rw [← hw.encoded, Array.length_toList] at hlt
  omega

theorem Walk.Agrees.passes {offset : Nat} {instr : Instruction} {flow : Option Nat} {walk : Walk}
    (hw : WellFormed code instrs) (ht : Typing instrs depth)
    (ha : walk.Agrees instrs depth offset flow) (hi : (offset, instr) ∈ placed instrs) :
    ∃ result, walk.Passes code.size offset instr flow (depth offset) result := by
  have hstart : offset ∈ starts instrs := mem_starts_iff.2 ⟨instr, hi⟩
  have hreached : flow = none → walk.depths[offset]? ≠ none := by
    intro hf
    obtain ⟨k, before, hk, hterm, rfl⟩ := ha.stopped hf
    obtain ⟨source, jump, target, hs, hlt, hj, hp⟩ := hw.entered k before hk hterm hstart
    rw [ha.jumped source jump target _ hs hlt hj hp]
    exact Option.some_ne_none _
  have hflow : ∀ n, flow = some n → n = depth offset := fun n hn => (ha.flow_eq n hn).1
  have hrec : ∀ n, walk.depths[offset]? = some n → n = depth offset := fun n hn =>
    (ha.recorded offset n hn).2.1
  have hrange := hw.operands instr (mem_of_mem_items hi)
  have hret : instr = .ret → depth offset = 1 := by
    intro h
    subst h
    exact ht.returned offset hi
  have hpop := ht.popped offset instr hi
  cases hj : instr.jumpTarget? with
  | none =>
    refine ⟨walk.seen offset instr (depth offset),
      ⟨hreached, hflow, hrec, hrange, hret, hpop, ?_⟩⟩
    rw [hj]
  | some target =>
    obtain ⟨place, hplace, hmem⟩ := hw.targets offset instr target hi hj
    have hdepth := ht.jumps offset instr target place hi hj hplace
    refine ⟨(walk.seen offset instr (depth offset)).jumped offset place (depth place),
      ⟨hreached, hflow, hrec, hrange, hret, hpop, ?_⟩⟩
    rw [hj]
    refine ⟨place, hplace, hw.lt_size hmem, ?_, ?_, by rw [hdepth]⟩
    · intro n hn
      rw [← hdepth]
      rw [Walk.getElem?_seen] at hn
      split at hn
      · subst place
        exact (Option.some.inj hn).symm
      · exact (ha.recorded place n hn).2.1
    · intro hn
      rw [Walk.getElem?_seen] at hn
      split at hn
      · cases hn
      -- A target that is not ahead has been passed, and its depth is on record.
      · by_contra hle
        rw [ha.passed place hmem (by omega)] at hn
        cases hn

theorem Walk.Agrees.here_le {offset : Nat} {instr : Instruction} {flow : Option Nat}
    {walk result : Walk} {size : Nat} (ha : walk.Agrees instrs depth offset flow)
    (hp : walk.Passes size offset instr flow (depth offset) result) :
    depth offset ≤ walk.maxStackDepth := by
  cases flow with
  | some n =>
    obtain ⟨rfl, hle⟩ := ha.flow_eq n rfl
    exact hle
  | none =>
    obtain ⟨n, hn⟩ := Option.ne_none_iff_exists'.1 (hp.reached rfl)
    obtain ⟨-, rfl, hle⟩ := ha.recorded offset n hn
    exact hle

theorem after_le_of_isTerminal {instr : Instruction} (h : instr.opcode.isTerminal = true)
    (n : Nat) : instr.after n ≤ n := by
  rcases instr.isTerminal_opcode.1 h with ⟨target, rfl⟩ | rfl | rfl <;>
    simp [Instruction.after, Instruction.pops, Instruction.pushes]

theorem Walk.Agrees.advance {offset : Nat} {instr : Instruction} {tail : List Instruction}
    {flow : Option Nat} {walk result : Walk}
    (hw : WellFormed code instrs) (ht : Typing instrs depth)
    (ha : walk.Agrees instrs depth offset flow)
    (hsub : ∀ item ∈ (ofInstructions offset (instr :: tail)).items, item ∈ placed instrs)
    (hcover : ∀ item ∈ placed instrs,
      item.1 < offset ∨ item ∈ (ofInstructions offset (instr :: tail)).items)
    (hnext : instr.opcode.isTerminal = false → tail ≠ [])
    (hp : walk.Passes code.size offset instr flow (depth offset) result) :
    result.Agrees instrs depth (offset + instr.encodedLength)
      (flowAfter instr (depth offset)) := by
  have hadv := hp.advances
  have hi : (offset, instr) ∈ placed instrs := hsub _ (by simp)
  have hstart : offset ∈ starts instrs := mem_starts_iff.2 ⟨instr, hi⟩
  have hle := ha.here_le hp
  have hmax := hadv.maxStackDepth
  have hbefore : ∀ k found, (k, found) ∈ placed instrs → k < offset + instr.encodedLength →
      k < offset ∨ k = offset ∧ found = instr := by
    intro k found hk hlt
    rcases hcover _ hk with h | h
    · exact .inl h
    · rw [items_ofInstructions_cons, List.mem_cons] at h
      rcases h with h | h
      · cases h
        exact .inr ⟨rfl, rfl⟩
      · have := le_of_mem_items h
        omega
  have hfollow : instr.opcode.isTerminal = false →
      offset + instr.encodedLength ∈ starts instrs := by
    intro h
    obtain ⟨second, rest, rfl⟩ := List.exists_cons_of_ne_nil (hnext h)
    exact mem_starts_iff.2 ⟨second, hsub _ (by simp)⟩
  refine
    { recorded := fun k n hk => ?_
      passed := fun k hk hlt => ?_
      jumped := fun k found target place hk hlt hj hplace => ?_
      flow_eq := fun n hn => ?_
      stopped := fun hf => ?_
      ahead := fun jump hj => ?_
      attained := ?_
      locals_le := fun k found hk hlt => ?_
      locals_eq := ?_ }
  · rcases hadv.keys k n hk with hk' | rfl | ⟨-, rfl, target, hj, hplace⟩
    · obtain ⟨hmem, hn, hle'⟩ := ha.recorded k n hk'
      exact ⟨hmem, hn, by omega⟩
    · rw [hadv.here] at hk
      cases hk
      exact ⟨hstart, rfl, by omega⟩
    · obtain ⟨place, hplace', hmem⟩ := hw.targets offset instr target hi hj
      rw [hplace] at hplace'
      cases hplace'
      exact ⟨hmem, (ht.jumps offset instr target k hi hj hplace).symm, by omega⟩
  · obtain ⟨found, hfound⟩ := mem_starts_iff.1 hk
    rcases hbefore k found hfound hlt with h | ⟨rfl, -⟩
    · exact hadv.depths _ _ (ha.passed k hk h)
    · exact hadv.here
  · rcases hbefore k found hk hlt with h | ⟨rfl, rfl⟩
    · exact hadv.depths _ _ (ha.jumped k found target place hk h hj hplace)
    · obtain ⟨place', hplace', hd⟩ := hadv.target target hj
      rw [hplace] at hplace'
      cases hplace'
      rw [hd, ht.jumps k found target place hi hj hplace]
  · unfold flowAfter at hn
    split at hn
    · cases hn
    · rename_i hterm
      cases hn
      rw [ht.flows offset instr hi (by simpa using hterm)]
      exact ⟨rfl, by omega⟩
  · refine ⟨offset, instr, hi, ?_, rfl⟩
    by_contra hterm
    simp [flowAfter, hterm] at hf
  · rcases hadv.sources jump.1 jump.2 hj with hj | ⟨-, -, target, hjump, hplace⟩
    · exact ha.ahead jump hj
    · obtain ⟨place, hplace', hmem⟩ := hw.targets offset instr target hi hjump
      rw [hplace] at hplace'
      cases hplace'
      exact hmem
  · obtain ⟨k, hk, hkmax⟩ := ha.attained
    by_cases hgrow : instr.after (depth offset) ≤ walk.maxStackDepth
    · exact ⟨k, hk, by omega⟩
    -- A new maximum is the depth before the next instruction: terminal ones never add to it.
    · cases hterm : instr.opcode.isTerminal with
      | true =>
        have := after_le_of_isTerminal hterm (depth offset)
        omega
      | false => exact ⟨_, hfollow hterm, by rw [ht.flows offset instr hi hterm]; omega⟩
  · have hcount := hadv.localCount
    rcases hbefore k found hk hlt with h | ⟨rfl, rfl⟩
    · have := ha.locals_le k found hk h
      omega
    · omega
  · have hcount := hadv.localCount
    by_cases hgrow : instr.localsUsed ≤ walk.localCount
    · rw [show result.localCount = walk.localCount by omega]
      exact ha.locals_eq
    · exact .inr ⟨instr, mem_of_mem_items hi, by omega⟩

theorem exists_through (rest : List Instruction) {offset : Nat} {flow : Option Nat} {walk : Walk}
    (hw : WellFormed code instrs) (ht : Typing instrs depth)
    (ha : walk.Agrees instrs depth offset flow)
    (hsub : ∀ item ∈ (ofInstructions offset rest).items, item ∈ placed instrs)
    (hcover : ∀ item ∈ placed instrs, item.1 < offset ∨ item ∈ (ofInstructions offset rest).items)
    (hlast : ∀ last, rest.getLast? = some last → last.opcode.isTerminal = true)
    (hflow : rest = [] → flow = none) :
    ∃ final finalOffset, Walk.through code.size (ofInstructions offset rest) flow walk = .ok final ∧
      final.Agrees instrs depth finalOffset none ∧
      ∀ item ∈ placed instrs, item.1 < finalOffset := by
  induction rest generalizing offset flow walk with
  | nil =>
    cases hflow rfl
    refine ⟨walk, offset, rfl, ha, fun item hitem => ?_⟩
    rcases hcover item hitem with h | h
    · exact h
    · simp [ofInstructions, items] at h
  | cons instr tail ih =>
    have hi : (offset, instr) ∈ placed instrs := hsub _ (by simp)
    have hnext : instr.opcode.isTerminal = false → tail ≠ [] := by
      intro hterm htail
      subst htail
      have := hlast instr rfl
      simp [hterm] at this
    obtain ⟨result, hp⟩ := ha.passes hw ht hi
    have hadv := ha.advance hw ht hsub hcover hnext hp
    have hpos := instr.encodedLength_pos
    have hlast' : ∀ last, tail.getLast? = some last → last.opcode.isTerminal = true := by
      intro last h
      apply hlast
      cases tail with
      | nil => simp at h
      | cons second tail => rwa [List.getLast?_cons_cons]
    have hflow' : tail = [] → Walk.flowAfter instr (depth offset) = none := by
      intro htail
      by_contra hne
      refine hnext ?_ htail
      simpa [Walk.flowAfter] using hne
    obtain ⟨final, finalOffset, hthrough, hfinal⟩ := ih hadv
      (fun item h => hsub item (List.mem_cons_of_mem _ h))
      (fun item h => by
        rcases hcover item h with h | h
        · exact .inl (by omega)
        · rw [items_ofInstructions_cons, List.mem_cons] at h
          rcases h with rfl | h
          · exact .inl (by simp only; omega)
          · exact .inr h)
      hlast' hflow'
    exact ⟨final, finalOffset, Walk.through_item_eq_ok_iff.2 ⟨_, result, hp, hthrough⟩, hfinal⟩

end Typed

theorem error?_of_through {size : Nat} {listing : Listing} {flow : Option Nat} {walk final : Walk}
    (h : Walk.through size listing flow walk = .ok final) : listing.error? = none := by
  induction listing generalizing flow walk with
  | done => rfl
  | bad error => simp [Walk.through, bind_eq_ok_iff] at h
  | item offset instr rest ih =>
    obtain ⟨depth, result, -, hrest⟩ := Walk.through_item_eq_ok_iff.1 h
    exact ih hrest

theorem simulate_eq_ok_iff {code : Array UInt8} {summary : StackSummary} :
    simulate code = .ok summary ↔ ∃ final,
      Walk.through code.size (Listing.ofCode code) (some 0) {} = .ok final ∧
      (∀ jump ∈ final.ahead, jump.2 ∈ (Listing.ofCode code).offsets) ∧
      summary = ⟨final.maxStackDepth, final.localCount, final.depths⟩ := by
  have hfind : ∀ final : Walk,
      (final.ahead.reverse.find? fun jump => jump.2 ∉ (Listing.ofCode code).offsets) = none ↔
      ∀ jump ∈ final.ahead, jump.2 ∈ (Listing.ofCode code).offsets := by
    intro final
    simp [List.find?_eq_none]
  simp only [simulate, bind_eq_ok_iff]
  constructor
  · intro h
    obtain ⟨final, hthrough, h⟩ := h
    split at h
    · simp at h
    · rename_i hnone
      exact ⟨final, hthrough, (hfind final).1 hnone, (Except.ok.inj h).symm⟩
  · intro h
    obtain ⟨final, hthrough, hahead, rfl⟩ := h
    refine ⟨final, hthrough, ?_⟩
    split
    · rename_i hsome
      rw [(hfind final).2 hahead] at hsome
      cases hsome
    · rfl

theorem exists_typing {code : Array UInt8} {summary : StackSummary}
    (h : simulate code = .ok summary) :
    ∃ instrs depth, WellFormed code instrs ∧ Typing instrs depth := by
  obtain ⟨final, hthrough, hahead, rfl⟩ := simulate_eq_ok_iff.1 h
  obtain ⟨instrs, hcode⟩ := Listing.exists_ofInstructions (error?_of_through hthrough)
  have hlisting : Listing.ofCode code = ofInstructions 0 instrs := ofOffset_eq_ofInstructions hcode
  rw [hlisting] at hthrough hahead
  rw [List.drop_zero] at hcode
  have hc := Walk.covers_of_through (by intro k n hk; simp at hk) hthrough
  have hne : instrs ≠ [] := fun hnil => by
    have := hc.flow_end hnil
    cases this
  have hget : ∀ k n : Nat, final.depths[k]? = some n → (final.depths[k]?).getD 0 = n := by
    intro k n hk
    rw [hk, Option.getD_some]
  refine ⟨instrs, fun k => (final.depths[k]?).getD 0, ?_, ?_⟩
  · refine ⟨hcode, ?_, ?_, ?_, ?_⟩
    · obtain ⟨last, hlast⟩ := Option.ne_none_iff_exists'.1 (mt List.getLast?_eq_none_iff.1 hne)
      exact ⟨last, hlast, hc.last last hlast⟩
    · intro offset instr target hi hj
      obtain ⟨-, n, -, -, -, -, htarget⟩ := hc.typed offset instr hi
      obtain ⟨place, hplace, hd⟩ := htarget target hj
      refine ⟨place, hplace, ?_⟩
      rcases hc.keys place _ hd with hk | hk | ⟨source, hs⟩
      · simp at hk
      · exact hk
      · exact hahead _ hs
    · intro instr hi
      obtain ⟨k, hk⟩ := exists_mem_items hi 0
      exact (hc.typed k instr hk).1
    · intro offset instr hi hterm hnext
      obtain ⟨source, hs⟩ := hc.entered offset instr hi hterm hnext
      rcases hc.sources _ _ hs with hs | ⟨hlt, jump, target, hjump, hj, hplace⟩
      · simp at hs
      · exact ⟨source, jump, target, hjump, hlt, hj, hplace⟩
  · refine ⟨hget _ _ (hc.flow_eq 0 rfl), ?_, ?_, ?_, ?_⟩
    · intro offset instr hi
      obtain ⟨-, n, hn, hpop, -⟩ := hc.typed offset instr hi
      simpa [hget _ _ hn] using hpop
    · intro offset hi
      obtain ⟨-, n, hn, -, hret, -⟩ := hc.typed offset .ret hi
      simpa [hget _ _ hn] using hret rfl
    · intro offset instr hi hterm
      obtain ⟨-, n, hn, -, -, hflow, -⟩ := hc.typed offset instr hi
      simp [hget _ _ hn, hflow hterm]
    · intro offset instr target place hi hj hplace
      obtain ⟨-, n, hn, -, -, -, htarget⟩ := hc.typed offset instr hi
      obtain ⟨place', hplace', hd⟩ := htarget target hj
      rw [hplace] at hplace'
      cases hplace'
      simp [hget _ _ hn, hd]

theorem exists_describes {code : Array UInt8} {instrs : List Instruction} {depth : Nat → Nat}
    (hw : WellFormed code instrs) (ht : Typing instrs depth) :
    ∃ summary, simulate code = .ok summary ∧ summary.Describes instrs depth := by
  have hlisting : Listing.ofCode code = ofInstructions 0 instrs :=
    ofOffset_eq_ofInstructions (by rw [List.drop_zero, hw.encoded])
  obtain ⟨last, hlast, hterm⟩ := hw.closed
  have hne : instrs ≠ [] := by
    intro h
    simp [h] at hlast
  have hzero : 0 ∈ starts instrs := by
    obtain ⟨first, rest, rfl⟩ := List.exists_cons_of_ne_nil hne
    exact mem_starts_iff.2 ⟨first, by simp [placed]⟩
  have ha : Walk.Agrees instrs depth 0 (some 0) {} := by
    refine ⟨by simp, by simp, by simp, ?_, by simp, by simp, ⟨0, hzero, ht.first⟩, by simp, by simp⟩
    intro n hn
    cases hn
    exact ⟨ht.first.symm, Nat.le_refl _⟩
  obtain ⟨final, finalOffset, hthrough, hf, hall⟩ := exists_through instrs hw ht ha
    (fun item h => h) (fun item h => .inr h)
    (fun found hfound => by
      rw [hlast] at hfound
      cases hfound
      exact hterm)
    (fun hnil => (hne hnil).elim)
  have hpassed : ∀ k, k ∈ starts instrs → final.depths[k]? = some (depth k) := by
    intro k hk
    obtain ⟨instr, hi⟩ := mem_starts_iff.1 hk
    exact hf.passed k hk (hall _ hi)
  refine ⟨⟨final.maxStackDepth, final.localCount, final.depths⟩, ?_, ?_, ?_, ?_, ?_, ?_⟩
  · refine simulate_eq_ok_iff.2 ⟨final, by rw [hlisting]; exact hthrough, ?_, rfl⟩
    rw [hlisting]
    exact hf.ahead
  · intro offset n
    constructor
    · intro hn
      obtain ⟨hmem, heq, -⟩ := hf.recorded offset n hn
      exact ⟨hmem, heq⟩
    · intro h
      rw [h.2]
      exact hpassed offset h.1
  · intro offset hmem
    exact (hf.recorded offset _ (hpassed offset hmem)).2.2
  · exact hf.attained
  · intro instr hi
    obtain ⟨k, hk⟩ := exists_mem_items hi 0
    exact (Instruction.localsUsed_le_iff (hw.operands instr hi) _).1
      (hf.locals_le k instr hk (hall _ hk))
  · rcases hf.locals_eq with h | ⟨instr, hi, h⟩
    · exact .inl h
    · unfold Instruction.localsUsed at h
      cases hlocal : instr.local? with
      | none =>
        simp only [hlocal] at h
        exact .inl h.symm
      | some slot =>
        simp only [hlocal] at h
        have hpos := (hw.operands instr hi).of_local? hlocal
        exact .inr ⟨instr, hi, slot, hlocal, by simp only; omega⟩

/-- The walk accepts exactly the typed code, and sums up every typing that the code has. -/
theorem simulate_ok_iff_typed (code : Array UInt8) :
    ((∃ summary, simulate code = .ok summary) ↔
      ∃ instrs depth, WellFormed code instrs ∧ Typing instrs depth) ∧
    ∀ summary instrs depth, simulate code = .ok summary → WellFormed code instrs →
      Typing instrs depth → summary.Describes instrs depth := by
  refine ⟨⟨?_, ?_⟩, ?_⟩
  · intro h
    obtain ⟨summary, hs⟩ := h
    exact exists_typing hs
  · intro h
    obtain ⟨instrs, depth, hw, ht⟩ := h
    obtain ⟨summary, hs, -⟩ := exists_describes hw ht
    exact ⟨summary, hs⟩
  · intro summary instrs depth hs hw ht
    obtain ⟨found, hfound, hd⟩ := exists_describes hw ht
    rw [hs] at hfound
    cases hfound
    exact hd

def loopBody : List Instruction :=
  [.pushLocal 0, .dup, .pushConstant 5, .branch .less 9, .ret]

def loopDepth (offset : Nat) : Nat :=
  if offset = 0 then 0 else if offset = 10 then 2 else if offset = 19 then 3 else 1

theorem loopBody_jumps {offset : Nat} {instr : Instruction} {target : Int64}
    (hi : (offset, instr) ∈ placed loopBody) (ht : instr.jumpTarget? = some target) :
    (offset, target) = (19, 9) := by
  have h : ∀ item ∈ placed loopBody, item.2.jumpTarget? = none ∨
      item = (19, .branch .less 9) := by decide
  rcases h _ hi with h | h
  · simp [ht] at h
  · cases h
    cases ht
    rfl

theorem loopBody_wellFormed :
    WellFormed (loopBody.flatMap Instruction.encode).toArray loopBody where
  encoded := rfl
  closed := ⟨.ret, rfl, rfl⟩
  targets offset instr target hi ht := by
    cases loopBody_jumps hi ht
    exact ⟨9, by decide⟩
  operands := by simp [loopBody, Instruction.InRange]
  entered offset instr hi ht hs := by
    have h : ∀ item ∈ placed loopBody, item.2.opcode.isTerminal = true →
        item.1 + item.2.encodedLength ∉ starts loopBody := by decide
    exact absurd hs (h _ hi ht)

theorem loopBody_typing : Typing loopBody loopDepth where
  first := rfl
  popped offset instr hi := by
    have h : ∀ item ∈ placed loopBody, item.2.pops ≤ loopDepth item.1 := by decide
    exact h _ hi
  returned offset hi := by
    have h : ∀ item ∈ placed loopBody, item.2 = .ret → loopDepth item.1 = 1 := by decide
    exact h _ hi rfl
  flows offset instr hi := by
    have h : ∀ item ∈ placed loopBody, item.2.opcode.isTerminal = false →
        loopDepth (item.1 + item.2.encodedLength) = item.2.after (loopDepth item.1) := by decide
    exact h _ hi
  jumps offset instr target place hi ht hp := by
    have h : ∀ item ∈ placed loopBody, item.1 = 19 → item.2.after (loopDepth item.1) = 1 := by
      decide
    cases loopBody_jumps hi ht
    cases hp
    exact (h _ hi rfl).symm

theorem simulate_loopBody :
    ∃ summary, simulate (loopBody.flatMap Instruction.encode).toArray = .ok summary ∧
      summary.Describes loopBody loopDepth := by
  have h := simulate_ok_iff_typed (loopBody.flatMap Instruction.encode).toArray
  obtain ⟨summary, hs⟩ := h.1.2 ⟨_, _, loopBody_wellFormed, loopBody_typing⟩
  exact ⟨summary, hs, h.2 _ _ _ hs loopBody_wellFormed loopBody_typing⟩

end TieredVM.StackDepth
