import Mathlib.Logic.Relation
import TieredVM.Proofs.Verify.Acceptance
/-!
Control paths through a function's code, and what the walk knows about them: every depth that it
carries along or has on record is that of a path. So whatever the walk reports about depths,
operands and jumps, control does meet. It is different with code that it reports as unreachable:
there it only means that nothing further up leads to it.
-/
set_option autoImplicit false

namespace TieredVM

inductive Instruction.Leads (instr : Instruction) (offset : Nat) : Nat → Prop
  | falls : instr.opcode.isTerminal = false → Leads instr offset (offset + instr.encodedLength)
  | jumps {target : Int64} {place : Nat} : instr.jumpTarget? = some target →
    Word.toIndex? target = some place → Leads instr offset place

namespace StackDepth
open Listing

/-- Control comes to an offset with a number of values on the stack, from the start of the code and
only along instructions that find there what they take off. -/
inductive ControlPath (code : Array UInt8) : Nat → Nat → Prop
  | start : ControlPath code 0 0
  | step {offset depth next : Nat} {instr : Instruction} :
    ControlPath code offset depth → Instruction.decode code offset = .ok instr → instr.InRange →
    instr.pops ≤ depth → instr.Leads offset next → ControlPath code next (instr.after depth)

/-- No instruction in front of the offset leads to it. -/
def Unentered (code : Array UInt8) (offset : Nat) : Prop :=
  0 < offset ∧ ∀ k instr, (k, instr) ∈ (Listing.ofCode code).items → k < offset →
    ¬ instr.Leads k offset

end StackDepth

open StackDepth in
/-- What a defect says of the code. Except where it says that no path comes to an instruction, there
is a path on which control meets the defect. -/
inductive Defect.Founded (code : Array UInt8) : Defect → Prop
  | stackMismatch {offset expected found : Nat} : ControlPath code offset expected →
    ControlPath code offset found → expected ≠ found →
    Founded code (.stackMismatch offset expected found)
  | unreachable {offset : Nat} : Unentered code offset → Founded code (.unreachable offset)
  | returnDepth {offset depth : Nat} : ControlPath code offset depth →
    Instruction.decode code offset = .ok .ret → depth ≠ 1 →
    Founded code (.returnDepth offset depth)
  | stackUnderflow {offset depth : Nat} {instr : Instruction} : ControlPath code offset depth →
    Instruction.decode code offset = .ok instr → depth < instr.pops →
    Founded code (.stackUnderflow offset)
  | unknownOpcode {offset depth : Nat} {byte : UInt8} : ControlPath code offset depth →
    code[offset]? = some byte → Opcode.ofByte? byte = none →
    Founded code (.unknownOpcode offset byte)
  | truncated {offset depth : Nat} {op : Opcode} : ControlPath code offset depth →
    code[offset]?.bind Opcode.ofByte? = some op → code.size < offset + op.encodedLength →
    Founded code (.truncated offset)
  | invalidJumpTarget {offset depth : Nat} {instr : Instruction} {target : Int64} :
    ControlPath code offset depth → Instruction.decode code offset = .ok instr →
    instr.jumpTarget? = some target →
    (∀ place, Word.toIndex? target = some place → place ∉ (Listing.ofCode code).offsets) →
    Founded code (.invalidJumpTarget offset target)
  | fallsOffEnd {depth : Nat} : ControlPath code code.size depth → Founded code .fallsOffEnd
  | negativeOperand {offset depth : Nat} {instr : Instruction} {value : Int64} :
    ControlPath code offset depth → Instruction.decode code offset = .ok instr →
    (instr = .pushArg value ∨ instr.local? = some value ∨ ∃ callee, instr = .call callee value) →
    value.toInt < 0 → Founded code (.negativeOperand offset value)
  | tooManyLocals {offset depth : Nat} {instr : Instruction} {slot : Int64} :
    ControlPath code offset depth → Instruction.decode code offset = .ok instr →
    instr.local? = some slot → 65535 < slot.toInt → Founded code (.tooManyLocals offset slot)

namespace StackDepth
open Listing

/-- What the walk has found before an offset: the depths are those of control paths, and from what
it has passed it knows all that control can come to. -/
structure Walk.Traced (code : Array UInt8) (offset : Nat) (flow : Option Nat) (walk : Walk) :
    Prop where
  le_size : offset ≤ code.size
  started : flow = none → 0 < offset
  carried : ∀ n, flow = some n → ControlPath code offset n
  recorded : ∀ k n : Nat, walk.depths[k]? = some n → ControlPath code k n
  ahead : ∀ source place, (source, place) ∈ walk.ahead → ∃ depth instr target,
    ControlPath code source depth ∧ Instruction.decode code source = .ok instr ∧
      instr.jumpTarget? = some target ∧ Word.toIndex? target = some place
  passed : ∀ k instr, (k, instr) ∈ (Listing.ofCode code).items →
    (k, instr) ∈ (ofOffset code offset).items ∨ k < offset ∧ walk.depths[k]? ≠ none ∧
      ∀ next, instr.Leads k next →
        next < offset ∨ walk.depths[next]? ≠ none ∨ next = offset ∧ flow ≠ none

section Defects

variable {code : Array UInt8} {offset depth : Nat} {instr : Instruction} {defect : Defect}

theorem index_eq_error_iff {value : Int64} :
    index offset value = .error defect ↔
      value.toInt < 0 ∧ defect = .negativeOperand offset value := by
  unfold index
  rw [← Word.toIndex?_eq_none_iff]
  cases Word.toIndex? value <;> simp [eq_comm]

theorem localSlot_eq_error {slot : Int64} (hpos : 0 ≤ slot.toInt)
    (h : localSlot offset slot = .error defect) :
    65535 < slot.toInt ∧ defect = .tooManyLocals offset slot := by
  have hlarge : ¬ slot.toInt.toNat < maxLocals := fun hlt => by
    rw [localSlot_eq_ok_iff.2 ⟨Word.toIndex?_of_nonneg hpos, hlt⟩] at h
    cases h
  unfold localSlot at h
  split at h
  · cases h
    simp only [maxLocals] at hlarge
    exact ⟨by omega, rfl⟩
  · cases h

theorem stackEffect_eq_error (h : stackEffect offset instr = .error defect) :
    ∃ callee args, instr = .call callee args ∧ args.toInt < 0 ∧
      defect = .negativeOperand offset args := by
  cases instr with
  | call callee args =>
    simp only [stackEffect, bind_eq_error_iff, index_eq_error_iff, pure_eq_ok, reduceCtorEq,
      and_false, exists_false, or_false] at h
    exact ⟨callee, args, rfl, h⟩
  | _ => cases h

theorem founded_of_depthAfter (hpath : ControlPath code offset depth)
    (hdecode : Instruction.decode code offset = .ok instr)
    (h : depthAfter offset instr depth = .error defect) : defect.Founded code := by
  unfold depthAfter at h
  by_cases hret : instr = .ret ∧ depth ≠ 1
  · rw [if_pos hret] at h
    cases h
    exact .returnDepth hpath (hret.1 ▸ hdecode) hret.2
  · simp only [hret, if_false, pure_eq_ok, bind_eq_error_iff] at h
    rcases h with h | ⟨effect, heffect, h⟩
    · obtain ⟨callee, args, rfl, hneg, rfl⟩ := stackEffect_eq_error h
      exact .negativeOperand hpath hdecode (.inr (.inr ⟨callee, rfl⟩)) hneg
    · obtain ⟨-, rfl⟩ := stackEffect_eq_ok_iff.1 heffect
      split at h
      · cases h
        exact .stackUnderflow hpath hdecode ‹_›
      · cases h

theorem founded_of_localsNeeded (hpath : ControlPath code offset depth)
    (hdecode : Instruction.decode code offset = .ok instr)
    (h : localsNeeded offset instr = .error defect) : defect.Founded code := by
  have hslot : ∀ slot, instr.local? = some slot → (do
      let _ ← index offset slot
      return (← localSlot offset slot) + 1) = Except.error (α := Nat) defect →
      defect.Founded code := by
    intro slot hlocal h
    simp only [bind_eq_error_iff, index_eq_error_iff, pure_eq_ok, reduceCtorEq, and_false,
      exists_false, or_false, index_eq_ok_iff] at h
    rcases h with ⟨hneg, rfl⟩ | ⟨_, hpos, h⟩
    · exact .negativeOperand hpath hdecode (.inr (.inl hlocal)) hneg
    · obtain ⟨hlarge, rfl⟩ := localSlot_eq_error (Word.nonneg_of_toIndex? hpos).1 h
      exact .tooManyLocals hpath hdecode hlocal hlarge
  cases instr with
  | pushArg arg =>
    simp only [localsNeeded, bind_eq_error_iff, index_eq_error_iff, pure_eq_ok, reduceCtorEq,
      and_false, exists_false, or_false] at h
    obtain ⟨hneg, rfl⟩ := h
    exact .negativeOperand hpath hdecode (.inl rfl) hneg
  | pushLocal slot => exact hslot slot rfl h
  | popLocal slot => exact hslot slot rfl h
  | _ => cases h

theorem founded_of_decode {error : DecodeError} (hpath : ControlPath code offset depth)
    (hlt : offset < code.size) (h : Instruction.decode code offset = .error error) :
    (defectOf error).Founded code := by
  cases error with
  | unknownOpcode place byte =>
    obtain ⟨rfl, hbyte, hop⟩ := Instruction.unknown_of_decode h
    exact .unknownOpcode hpath hbyte hop
  | truncated place op =>
    obtain ⟨rfl, hsize, hop⟩ := Instruction.size_lt_of_decode h
    exact .truncated hpath (hop hlt) hsize

theorem founded_of_not_mem {target : Int64} {place : Nat} (hpath : ControlPath code offset depth)
    (hdecode : Instruction.decode code offset = .ok instr)
    (htarget : instr.jumpTarget? = some target) (hplace : Word.toIndex? target = some place)
    (hmem : place ∉ (Listing.ofCode code).offsets) :
    (Defect.invalidJumpTarget offset target).Founded code := by
  refine .invalidJumpTarget hpath hdecode htarget fun other hother => ?_
  obtain rfl := Option.some.inj (hplace.symm.trans hother)
  exact hmem

end Defects

namespace Walk

variable {code : Array UInt8} {offset depth : Nat} {instr : Instruction} {defect : Defect}
  {flow : Option Nat} {walk result : Walk}

theorem traced_zero (code : Array UInt8) : Walk.Traced code 0 (some 0) {} where
  le_size := Nat.zero_le _
  started := by simp
  carried n hn := by
    cases hn
    exact .start
  recorded := by simp
  ahead := by simp
  passed k instr hk := .inl hk

namespace Traced

theorem here (ht : walk.Traced code offset flow)
    (h : arrive offset flow walk.depths[offset]? = .ok depth) : ControlPath code offset depth := by
  obtain ⟨hreached, hflow, hrecorded⟩ := arrive_eq_ok_iff.1 h
  cases flow with
  | some n => exact hflow n rfl ▸ ht.carried n rfl
  | none =>
    obtain ⟨n, hn⟩ := Option.ne_none_iff_exists'.1 (hreached rfl)
    exact hrecorded n hn ▸ ht.recorded offset n hn

theorem founded_of_arrive (ht : walk.Traced code offset flow)
    (h : arrive offset flow walk.depths[offset]? = .error defect) : defect.Founded code := by
  cases hflow : flow with
  | none =>
    cases hrecorded : walk.depths[offset]? with
    | some expected => simp [arrive, hflow, hrecorded] at h
    | none =>
      simp only [arrive, hflow, hrecorded, Except.error.injEq] at h
      subst h
      refine .unreachable ⟨ht.started hflow, fun k instr hk hlt hleads => ?_⟩
      rcases ht.passed k instr hk with hlater | ⟨-, -, hknown⟩
      · exact absurd (le_of_mem_ofOffset hlater) (Nat.not_le.2 hlt)
      · rcases hknown offset hleads with h | h | h
        · exact Nat.lt_irrefl _ h
        · exact h hrecorded
        · exact h.2 hflow
  | some found =>
    cases hrecorded : walk.depths[offset]? with
    | none => simp [arrive, hflow, hrecorded] at h
    | some expected =>
      simp only [arrive, hflow, hrecorded] at h
      split at h
      · cases h
      · rename_i hne
        cases h
        exact .stackMismatch (ht.recorded offset expected hrecorded) (ht.carried found hflow)
          (Ne.symm hne)

theorem recorded_seen (ht : walk.Traced code offset flow) (hpath : ControlPath code offset depth)
    {k n : Nat} (h : (walk.seen offset instr depth).depths[k]? = some n) :
    ControlPath code k n := by
  rw [getElem?_seen] at h
  split at h
  · subst k
    cases h
    exact hpath
  · exact ht.recorded k n h

theorem not_mem_offsets (ht : walk.Traced code offset flow) {place : Nat} (hle : place ≤ offset)
    (h : (walk.seen offset instr depth).depths[place]? = none) :
    place ∉ (Listing.ofCode code).offsets := by
  intro hmem
  obtain ⟨found, hfound⟩ := mem_offsets_iff.1 hmem
  rw [getElem?_seen] at h
  split at h
  · cases h
  · rcases ht.passed place found hfound with hlater | ⟨-, hrecorded, -⟩
    · have := le_of_mem_ofOffset hlater
      omega
    · exact hrecorded h

theorem founded_of_jump (ht : walk.Traced code offset flow) (hpath : ControlPath code offset depth)
    (hdecode : Instruction.decode code offset = .ok instr) (hrange : instr.InRange)
    (hpop : instr.pops ≤ depth) {target : Int64} (htarget : instr.jumpTarget? = some target)
    (h : (walk.seen offset instr depth).jump code.size offset target (instr.after depth) =
      .error defect) : defect.Founded code := by
  unfold jump at h
  cases hindex : Word.toIndex? target with
  | none =>
    simp only [hindex, Option.filter_none, Except.error.injEq] at h
    subst h
    exact .invalidJumpTarget hpath hdecode htarget (by simp [hindex])
  | some place =>
    by_cases hsize : place < code.size
    · simp only [hindex, Option.filter_some, hsize, decide_true, if_true] at h
      cases hrecorded : (walk.seen offset instr depth).depths[place]? with
      | some expected =>
        by_cases hsame : expected = instr.after depth
        · simp [hrecorded, hsame] at h
        · simp only [hrecorded, hsame, if_false, Except.error.injEq] at h
          subst h
          exact .stackMismatch (ht.recorded_seen hpath hrecorded)
            (hpath.step hdecode hrange hpop (.jumps htarget hindex)) hsame
      | none =>
        by_cases hle : place ≤ offset
        · simp only [hrecorded, hle, if_true, Except.error.injEq] at h
          subst h
          exact founded_of_not_mem hpath hdecode htarget hindex (ht.not_mem_offsets hle hrecorded)
        · simp [hrecorded, hle] at h
    · simp only [hindex, Option.filter_some, hsize, decide_false, Bool.false_eq_true, if_false,
        Except.error.injEq] at h
      subst h
      exact founded_of_not_mem hpath hdecode htarget hindex
        fun hmem => hsize (lt_size_of_mem_offsets hmem)

theorem founded_of_visit (ht : walk.Traced code offset flow)
    (hpath : ControlPath code offset depth)
    (hdecode : Instruction.decode code offset = .ok instr)
    (h : ({ walk with depths := walk.depths.insert offset depth } : Walk).visit code.size offset
      instr depth = .error defect) : defect.Founded code := by
  simp only [visit, bind_eq_error_iff] at h
  rcases h with h | ⟨after, hafter, h | ⟨needed, hneeded, h⟩⟩
  · exact founded_of_depthAfter hpath hdecode h
  · exact founded_of_localsNeeded hpath hdecode h
  · obtain ⟨hcall, -, hpop, rfl⟩ := depthAfter_eq_ok_iff.1 hafter
    obtain ⟨hrange, rfl⟩ := operands_ok_iff.1 ⟨hcall, hneeded⟩
    cases htarget : instr.jumpTarget? with
    | none => simp [htarget] at h
    | some target =>
      simp only [htarget, bind_eq_error_iff, pure_eq_ok, reduceCtorEq, and_false, exists_false,
        or_false] at h
      exact ht.founded_of_jump hpath hdecode hrange hpop htarget h

theorem advance (ht : walk.Traced code offset flow) (hlt : offset < code.size)
    (hdecode : Instruction.decode code offset = .ok instr)
    (hpath : ControlPath code offset depth)
    (hp : Passes code.size offset instr flow walk depth result) :
    result.Traced code (offset + instr.encodedLength) (flowAfter instr depth) := by
  have ha := hp.advances
  have hpos := instr.encodedLength_pos
  have hstep : ∀ {next}, instr.Leads offset next → ControlPath code next (instr.after depth) :=
    fun hleads => hpath.step hdecode hp.inRange hp.popped hleads
  have hkeeps : ∀ k : Nat, walk.depths[k]? ≠ none → result.depths[k]? ≠ none := by
    intro k hk
    obtain ⟨n, hn⟩ := Option.ne_none_iff_exists'.1 hk
    rw [ha.depths k n hn]
    exact Option.some_ne_none n
  refine
    { le_size := Instruction.offset_add_le_of_decode hdecode
      started := fun _ => by omega
      carried := fun n hn => ?_
      recorded := fun k n hk => ?_
      ahead := fun source place hs => ?_
      passed := fun k found hk => ?_ }
  · unfold flowAfter at hn
    split at hn
    · cases hn
    · rename_i hterm
      cases hn
      exact hstep (.falls (by simpa using hterm))
  · rcases ha.keys k n hk with hw | rfl | ⟨-, rfl, target, htarget, hplace⟩
    · exact ht.recorded k n hw
    · rw [ha.here] at hk
      cases hk
      exact hpath
    · exact hstep (.jumps htarget hplace)
  · rcases ha.sources source place hs with hs | ⟨rfl, -, target, htarget, hplace⟩
    · exact ht.ahead source place hs
    · exact ⟨depth, instr, target, hpath, hdecode, htarget, hplace⟩
  · rcases ht.passed k found hk with hlater | ⟨hbefore, hrecorded, hknown⟩
    · rw [ofOffset_of_decode hlt hdecode, items, List.mem_cons] at hlater
      rcases hlater with hitem | hlater
      · cases hitem
        refine .inr ⟨by omega, by rw [ha.here]; exact Option.some_ne_none depth, ?_⟩
        intro next hleads
        cases hleads with
        | falls hterm => exact .inr (.inr ⟨rfl, by simp [flowAfter, hterm]⟩)
        | jumps htarget hplace =>
          obtain ⟨place, hfound, hdepth⟩ := ha.target _ htarget
          obtain rfl := Option.some.inj (hplace.symm.trans hfound)
          exact .inr (.inl (by rw [hdepth]; exact Option.some_ne_none _))
      · exact .inl hlater
    · refine .inr ⟨by omega, hkeeps k hrecorded, fun next hleads => ?_⟩
      rcases hknown next hleads with h | h | ⟨rfl, -⟩
      · exact .inl (by omega)
      · exact .inr (.inl (hkeeps next h))
      · exact .inl (by omega)

end Traced

inductive Justified (code : Array UInt8) : Except Defect Walk → Prop
  | error {defect : Defect} : defect.Founded code → Justified code (.error defect)
  | ok {offset : Nat} {final : Walk} : final.Traced code offset none → Justified code (.ok final)

theorem Traced.justified (ht : walk.Traced code offset flow) :
    Justified code (through code.size (ofOffset code offset) flow walk) := by
  fun_induction Listing.ofOffset code offset generalizing flow walk with
  | case1 offset hlt error hdecode =>
    rw [Walk.through, Instruction.offset_of_decode hdecode]
    cases harrive : arrive offset flow walk.depths[offset]? with
    | error defect => exact .error (ht.founded_of_arrive harrive)
    | ok depth => exact .error (founded_of_decode (ht.here harrive) hlt hdecode)
  | case2 offset hlt instr hdecode ih =>
    cases harrive : arrive offset flow walk.depths[offset]? with
    | error defect =>
      simp only [Walk.through, harrive, error_bind]
      exact .error (ht.founded_of_arrive harrive)
    | ok depth =>
      have hpath := ht.here harrive
      cases hvisit : ({ walk with depths := walk.depths.insert offset depth } : Walk).visit
          code.size offset instr depth with
      | error defect =>
        simp only [Walk.through, harrive, ok_bind, hvisit, error_bind]
        exact .error (ht.founded_of_visit hpath hdecode hvisit)
      | ok next =>
        obtain ⟨hp, hnext⟩ := passes_iff.1 ⟨harrive, hvisit⟩
        simp only [Walk.through, harrive, ok_bind, hvisit, hnext]
        exact ih (ht.advance hlt hdecode hpath hp)
  | case3 offset hge =>
    cases flow with
    | none => exact .ok ht
    | some n =>
      obtain rfl : offset = code.size := Nat.le_antisymm ht.le_size (Nat.not_lt.1 hge)
      exact .error (.fallsOffEnd (ht.carried n rfl))

end Walk

theorem founded_or_ahead {code : Array UInt8} {defect : Defect}
    (h : simulate code = .error defect) : defect.Founded code ∨
      ∃ offset place depth instr target, ControlPath code offset depth ∧
        Instruction.decode code offset = .ok instr ∧ instr.jumpTarget? = some target ∧
        Word.toIndex? target = some place ∧ place ∉ (Listing.ofCode code).offsets ∧
        defect = .invalidJumpTarget offset target := by
  have hwalk := (Walk.traced_zero code).justified
  rw [← Listing.ofCode] at hwalk
  simp only [simulate, bind_eq_error_iff] at h
  rcases h with h | ⟨final, hfinal, h⟩
  · rw [h] at hwalk
    cases hwalk with
    | error hfounded => exact .inl hfounded
  · rw [hfinal] at hwalk
    cases hwalk with
    | ok htraced =>
      split at h
      · rename_i offset place hfind
        cases h
        have hmem := List.mem_of_find?_eq_some hfind
        obtain ⟨depth, instr, target, hpath, hdecode, htarget, hplace⟩ :=
          htraced.ahead offset place (List.mem_reverse.1 hmem)
        refine .inr ⟨offset, place, depth, instr, target, hpath, hdecode, htarget, hplace, ?_, ?_⟩
        · simpa using List.find?_some hfind
        · rw [Word.ofIndex_of_toIndex? hplace]
      · cases h

/-- Whatever the walk reports, there is ground for it. -/
theorem simulate_founded {code : Array UInt8} {defect : Defect}
    (h : simulate code = .error defect) : defect.Founded code := by
  rcases founded_or_ahead h with
    hfounded | ⟨offset, place, depth, instr, target, hpath, hdecode, htarget, hplace, hmem, rfl⟩
  · exact hfounded
  · exact founded_of_not_mem hpath hdecode htarget hplace hmem

def unevenSides : Array UInt8 :=
  (List.flatMap Instruction.encode [.pushArg 0, .pushArg 1, .branch .less 45, .pushConstant 1,
    .jump 63, .pushConstant 1, .pushConstant 2, .ret]).toArray

theorem simulate_founded_unevenSides : simulate unevenSides = .error (.stackMismatch 63 1 2) ∧
    ControlPath unevenSides 63 1 ∧ ControlPath unevenSides 63 2 := by
  have hsimulate : simulate unevenSides = .error (.stackMismatch 63 1 2) := by cbv
  cases simulate_founded hsimulate with
  | stackMismatch hexpected hfound => exact ⟨hsimulate, hexpected, hfound⟩

theorem unentered_of_simulate {code : Array UInt8} {offset : Nat}
    (h : simulate code = .error (.unreachable offset)) : Unentered code offset := by
  rcases founded_or_ahead h with
    hfounded | ⟨_, _, _, _, _, _, _, _, _, _, hdefect⟩
  · cases hfounded with
    | unreachable hunentered => exact hunentered
  · cases hdefect

/-- Control goes from one offset to another, along an instruction that the walk meets further up
than at `limit`. -/
def StepAbove (code : Array UInt8) (limit source next : Nat) : Prop :=
  source < limit ∧ ∃ instr, (source, instr) ∈ (Listing.ofCode code).items ∧ instr.Leads source next

/-- Neither by falling through nor by a jump does an instruction further up lead to one that is
reported as unreachable, so control that stays further up does not come to it. -/
theorem not_entered_from_above {code : Array UInt8} {offset : Nat}
    (h : simulate code = .error (.unreachable offset)) :
    Unentered code offset ∧ ¬ Relation.ReflTransGen (StepAbove code offset) 0 offset := by
  obtain ⟨hpos, hunentered⟩ := unentered_of_simulate h
  refine ⟨⟨hpos, hunentered⟩, fun hpath => ?_⟩
  rcases hpath.cases_tail with heq | ⟨source, -, hlt, instr, hitem, hleads⟩
  · omega
  · exact hunentered source instr hitem hlt hleads

def testBelowBody : Array UInt8 :=
  (List.flatMap Instruction.encode [.jump 11, .currentTime, .printInt64, .currentTime,
    .pushConstant 2000, .branch .less 9, .halt]).toArray

theorem simulate_testBelowBody : simulate testBelowBody = .error (.unreachable 9) := by cbv

theorem not_entered_from_above_testBelowBody : Unentered testBelowBody 9 ∧
    ¬ Relation.ReflTransGen (StepAbove testBelowBody 9) 0 9 :=
  not_entered_from_above simulate_testBelowBody

/-- The walk knows nothing of jumps further down: control does come to the body of the loop. -/
theorem controlPath_testBelowBody : simulate testBelowBody = .error (.unreachable 9) ∧
    ControlPath testBelowBody 9 0 := by
  refine ⟨simulate_testBelowBody, ?_⟩
  have henter : Instruction.decode testBelowBody 0 = .ok (.jump 11) := by cbv
  have htime : Instruction.decode testBelowBody 11 = .ok .currentTime := by cbv
  have hdeadline : Instruction.decode testBelowBody 12 = .ok (.pushConstant 2000) := by cbv
  have hbranch : Instruction.decode testBelowBody 21 = .ok (.branch .less 9) := by cbv
  have htest : ControlPath testBelowBody 11 0 :=
    .step .start henter trivial (Nat.zero_le _) (.jumps rfl rfl)
  have hfirst : ControlPath testBelowBody 12 1 :=
    htest.step htime trivial (Nat.zero_le _) (.falls rfl)
  have hsecond : ControlPath testBelowBody 21 2 :=
    hfirst.step hdeadline trivial (Nat.zero_le _) (.falls rfl)
  exact hsecond.step hbranch trivial (Nat.le_refl _) (.jumps rfl rfl)

end StackDepth
end TieredVM
