import Mathlib.Data.List.Forall2
import TieredVM.Proofs.Machine.Alignment
import TieredVM.Proofs.Verify.Flow
/-!
When a function can be compiled, and into what. Every instruction but the no-ops becomes one
operation, in the order of the code, and a jump leads to the first operation that does not come
from further up than its target.
-/
set_option autoImplicit false

namespace TieredVM

def Instruction.indices : Instruction → List Int64
  | .pushArg index | .pushLocal index | .popLocal index | .printString index => [index]
  | .call callee args => [callee, args]
  | _ => []

def Listing.working (items : List (Nat × Instruction)) : List (Nat × Instruction) :=
  items.filter (·.2 ≠ .nop)

def Op.target? : Op → Option Nat
  | .jump target | .branch _ target => some target
  | _ => none

/-- An operation stands for an instruction. Its operands are the same, and a target becomes the
number of the operation where it lands. -/
inductive Op.StandsFor (landing : Nat → Nat) : Op → Instruction → Prop
  | pushConstant (value : Int64) : StandsFor landing (.pushConstant value) (.pushConstant value)
  | pushArg {word : Int64} {index : Nat} : Word.toIndex? word = some index →
    StandsFor landing (.pushArg index) (.pushArg word)
  | pushLocal {word : Int64} {slot : Nat} : Word.toIndex? word = some slot →
    StandsFor landing (.pushLocal slot) (.pushLocal word)
  | pop : StandsFor landing .pop .pop
  | popLocal {word : Int64} {slot : Nat} : Word.toIndex? word = some slot →
    StandsFor landing (.popLocal slot) (.popLocal word)
  | dup : StandsFor landing .dup .dup
  | binary (op : BinaryOp) : StandsFor landing (.binary op) (.binary op)
  | jump {word : Int64} {place : Nat} : Word.toIndex? word = some place →
    StandsFor landing (.jump (landing place)) (.jump word)
  | branch {condition : Condition} {word : Int64} {place : Nat} : Word.toIndex? word = some place →
    StandsFor landing (.branch condition (landing place)) (.branch condition word)
  | call {callee args : Int64} {id count : Nat} : Word.toIndex? callee = some id →
    Word.toIndex? args = some count → StandsFor landing (.call id count) (.call callee args)
  | ret : StandsFor landing .ret .ret
  | printString {word : Int64} {id : Nat} : Word.toIndex? word = some id →
    StandsFor landing (.printString id) (.printString word)
  | printInt64 : StandsFor landing .printInt64 .printInt64
  | currentTime : StandsFor landing .currentTime .currentTime
  | halt : StandsFor landing .halt .halt

theorem Op.StandsFor.target {landing : Nat → Nat} {op : Op} {instr : Instruction} {n : Nat}
    (h : op.StandsFor landing instr) (htarget : op.target? = some n) :
    ∃ word place, instr.jumpTarget? = some word ∧ Word.toIndex? word = some place ∧
      n = landing place := by
  cases h with
  | jump hplace | branch hplace =>
    cases htarget
    exact ⟨_, _, rfl, hplace, rfl⟩
  | _ => cases htarget

namespace ThreadedCode
open Listing

/-- What an instruction must be like to be compiled, where instructions start at the given
offsets. -/
structure Fits (program : Program) (starts : List Nat) (instr : Instruction) : Prop where
  target : ∀ target, instr.jumpTarget? = some target →
    ∃ place, Word.toIndex? target = some place ∧ place ∈ starts
  indices : ∀ index ∈ instr.indices, 0 ≤ index.toInt
  callee : ∀ callee args, instr = .call callee args →
    ∃ id found, Word.toIndex? callee = some id ∧ program.function? id = some found

/-- What code must be like to be compiled. -/
structure Compilable (program : Program) (code : Array UInt8) : Prop where
  readable : ∃ instrs : List Instruction, code.toList = instrs.flatMap Instruction.encode
  fits : ∀ offset instr, (offset, instr) ∈ (Listing.ofCode code).items →
    Fits program (Listing.ofCode code).offsets instr

/-- The number of the first operation from an instruction at an offset or after it. If there is
none, this is the number of all operations. -/
def landing (items : List (Nat × Instruction)) (offset : Nat) : Nat :=
  (working items).findIdx fun item => offset ≤ item.1

/-- The operations of compiled code are those for the instructions of a listing. -/
structure Renders (code : ThreadedCode) (items : List (Nat × Instruction)) : Prop where
  ops : List.Forall₂ (fun opAt item => opAt.offset = item.1 ∧
    opAt.op.StandsFor (landing items) item.2) code.ops.toList (working items)
  ascending : (code.ops.toList.map (·.offset)).Pairwise (· < ·)

section Landing

variable {items : List (Nat × Instruction)}

theorem pairwise_items (code : Array UInt8) (offset : Nat) :
    (ofOffset code offset).items.Pairwise (·.1 < ·.1) := by
  fun_induction ofOffset code offset with
  | case1 offset hlt error hd => exact .nil
  | case2 offset hlt instr hd ih =>
    refine .cons (fun item hitem => ?_) ih
    have hle := le_of_mem_ofOffset hitem
    have hpos := instr.encodedLength_pos
    simp only
    omega
  | case3 offset hge => exact .nil

theorem landing_nop_cons (offset target : Nat) :
    landing ((offset, .nop) :: items) target = landing items target := by
  simp [landing, working]

theorem landing_cons {instr : Instruction} (hnop : instr ≠ .nop) (offset target : Nat) :
    landing ((offset, instr) :: items) target =
      if target ≤ offset then 0 else landing items target + 1 := by
  simp [landing, working, hnop, List.findIdx_cons, Bool.cond_decide]

theorem landing_eq_zero {target : Nat} (h : ∀ item ∈ items, target ≤ item.1) :
    landing items target = 0 := by
  unfold landing
  cases hworking : working items with
  | nil => rfl
  | cons first rest =>
    have hmem : first ∈ working items := hworking ▸ List.mem_cons_self
    simp [List.findIdx_cons, h first (List.mem_of_mem_filter hmem)]

theorem opNumber?_eq_some_iff (hsorted : items.Pairwise (·.1 < ·.1)) {target n : Nat} :
    opNumber? items target = some n ↔ target ∈ items.map (·.1) ∧ n = landing items target := by
  induction items generalizing n with
  | nil => simp [opNumber?]
  | cons item rest ih =>
    obtain ⟨offset, instr⟩ := item
    obtain ⟨hfirst, hrest⟩ := List.pairwise_cons.1 hsorted
    rw [opNumber?]
    by_cases htarget : offset = target
    · subst htarget
      have hzero : landing ((offset, instr) :: rest) offset = 0 := by
        refine landing_eq_zero fun item hitem => ?_
        rcases List.mem_cons.1 hitem with rfl | hitem
        · exact Nat.le_refl _
        · exact Nat.le_of_lt (hfirst item hitem)
      simp [hzero, eq_comm]
    · have hmem : target ∈ ((offset, instr) :: rest).map (·.1) ↔ target ∈ rest.map (·.1) := by
        simp only [List.map_cons, List.mem_cons, Ne.symm htarget, false_or]
      have hbelow : target ∈ rest.map (·.1) → offset < target := by
        intro h
        obtain ⟨item, hitem, rfl⟩ := List.mem_map.1 h
        exact hfirst item hitem
      rw [if_neg htarget, Option.map_eq_some_iff, hmem]
      simp only [ih hrest]
      by_cases hnop : instr = .nop
      · subst hnop
        simp [landing_nop_cons, eq_comm]
      · rw [landing_cons hnop]
        constructor
        · rintro ⟨m, ⟨htarget, rfl⟩, rfl⟩
          simp [htarget, hnop, Nat.not_le.2 (hbelow htarget)]
        · rintro ⟨htarget, rfl⟩
          simp [htarget, hnop, Nat.not_le.2 (hbelow htarget)]

theorem landing_lt {target : Nat} {item : Nat × Instruction} (hitem : item ∈ working items)
    (hle : target ≤ item.1) : landing items target < (working items).length :=
  List.findIdx_lt_length_of_exists ⟨item, hitem, by simpa using hle⟩

end Landing

section Instructions

variable {program : Program} {function : Function} {all items : List (Nat × Instruction)}
  {offset : Nat} {instr : Instruction}

theorem exists_goto?_iff (hsorted : all.Pairwise (·.1 < ·.1)) {target : Int64} :
    (∃ n, goto? all target = some n) ↔
      ∃ place, Word.toIndex? target = some place ∧ place ∈ all.map (·.1) := by
  simp only [goto?, Option.bind_eq_some_iff, opNumber?_eq_some_iff hsorted]
  constructor
  · rintro ⟨_, place, hplace, hmem, _⟩
    exact ⟨place, hplace, hmem⟩
  · rintro ⟨place, hplace, hmem⟩
    exact ⟨_, place, hplace, hmem, rfl⟩

theorem standsFor_of_translateInstr (hsorted : all.Pairwise (·.1 < ·.1)) {op : Op}
    (h : translateInstr program function all offset instr = .ok (some op)) :
    op.StandsFor (landing all) instr := by
  have hgoto : ∀ {target : Int64} {n : Nat}, goto? all target = some n →
      ∃ place, Word.toIndex? target = some place ∧ n = landing all place := by
    intro target n hn
    obtain ⟨place, hplace, hn⟩ := Option.bind_eq_some_iff.1 hn
    exact ⟨place, hplace, ((opNumber?_eq_some_iff hsorted).1 hn).2⟩
  cases instr with
  | nop => cases h
  | pushArg word | pushLocal word | popLocal word | printString word =>
    simp only [translateInstr, bind_eq_ok_iff, index_eq_ok_iff, pure_eq_ok, Except.ok.injEq,
      Option.some.injEq] at h
    obtain ⟨n, hn, rfl⟩ := h
    constructor
    exact hn
  | jump target | branch condition target =>
    simp only [translateInstr, bind_eq_ok_iff, target_eq_ok_iff, pure_eq_ok, Except.ok.injEq,
      Option.some.injEq] at h
    obtain ⟨n, hn, rfl⟩ := h
    obtain ⟨place, hplace, rfl⟩ := hgoto hn
    constructor
    exact hplace
  | call callee args =>
    simp only [translateInstr, bind_eq_ok_iff, index_eq_ok_iff] at h
    obtain ⟨id, hid, h⟩ := h
    cases hfound : program.function? id with
    | none => simp [hfound] at h
    | some found =>
      simp only [hfound, bind_eq_ok_iff, index_eq_ok_iff, pure_eq_ok, Except.ok.injEq,
        Option.some.injEq] at h
      obtain ⟨count, hcount, rfl⟩ := h
      exact .call hid hcount
  | _ =>
    cases h
    constructor

theorem exists_translateInstr_iff (hsorted : all.Pairwise (·.1 < ·.1)) :
    (∃ op?, translateInstr program function all offset instr = .ok op?) ↔
      Fits program (all.map (·.1)) instr := by
  cases instr with
  | pushArg word | pushLocal word | popLocal word | printString word =>
    simp only [translateInstr, bind_eq_ok_iff, index_eq_ok_iff, pure_eq_ok]
    constructor
    · rintro ⟨op?, n, hn, -⟩
      refine ⟨by simp [Instruction.jumpTarget?], ?_, by simp⟩
      simpa [Instruction.indices] using Word.exists_toIndex?_iff.1 ⟨n, hn⟩
    · intro h
      obtain ⟨n, hn⟩ := Word.exists_toIndex?_iff.2 (h.indices word List.mem_cons_self)
      exact ⟨_, n, hn, rfl⟩
  | jump target | branch condition target =>
    simp only [translateInstr, bind_eq_ok_iff, target_eq_ok_iff, pure_eq_ok]
    constructor
    · rintro ⟨op?, n, hn, -⟩
      refine ⟨?_, by simp [Instruction.indices], by simp⟩
      simpa [Instruction.jumpTarget?] using (exists_goto?_iff hsorted).1 ⟨n, hn⟩
    · intro h
      obtain ⟨n, hn⟩ := (exists_goto?_iff hsorted).2 (h.target target rfl)
      exact ⟨_, n, hn, rfl⟩
  | call callee args =>
    simp only [translateInstr, bind_eq_ok_iff, index_eq_ok_iff]
    constructor
    · rintro ⟨op?, id, hid, h⟩
      cases hfound : program.function? id with
      | none => simp [hfound] at h
      | some found =>
        simp only [hfound, bind_eq_ok_iff, index_eq_ok_iff] at h
        obtain ⟨count, hcount, -⟩ := h
        refine ⟨by simp [Instruction.jumpTarget?], ?_, ?_⟩
        · simpa [Instruction.indices] using
            ⟨Word.exists_toIndex?_iff.1 ⟨id, hid⟩, Word.exists_toIndex?_iff.1 ⟨count, hcount⟩⟩
        · intro callee args hcall
          cases hcall
          exact ⟨id, found, hid, hfound⟩
    · intro h
      obtain ⟨id, found, hid, hfound⟩ := h.callee callee args rfl
      obtain ⟨count, hcount⟩ :=
        Word.exists_toIndex?_iff.2 (h.indices args (List.mem_cons_of_mem _ List.mem_cons_self))
      exact ⟨some (.call id count), id, hid, by simp [hfound, bind_eq_ok_iff, index_eq_ok_iff,
        hcount]⟩
  | _ =>
    refine ⟨fun _ => ⟨?_, ?_, ?_⟩, fun _ => ⟨_, rfl⟩⟩
    · simp [Instruction.jumpTarget?]
    · simp [Instruction.indices]
    · simp

theorem exists_translateItems_iff :
    (∃ ops, translateItems program function all items = .ok ops) ↔
      ∀ offset instr, (offset, instr) ∈ items →
        ∃ op?, translateInstr program function all offset instr = .ok op? := by
  induction items with
  | nil => simp [translateItems]
  | cons item items ih =>
    obtain ⟨offset, instr⟩ := item
    simp only [translateItems_cons_eq_ok_iff]
    constructor
    · rintro ⟨_, op?, later, hop, hlater, rfl⟩ k found hmem
      rcases List.mem_cons.1 hmem with hmem | hmem
      · cases hmem
        exact ⟨op?, hop⟩
      · exact ih.1 ⟨later, hlater⟩ k found hmem
    · intro h
      obtain ⟨op?, hop⟩ := h offset instr List.mem_cons_self
      obtain ⟨later, hlater⟩ := ih.2 fun k found hmem => h k found (List.mem_cons_of_mem _ hmem)
      exact ⟨_, op?, later, hop, hlater, rfl⟩

theorem forall₂_of_translateItems {ops : List OpAt}
    (h : translateItems program function all items = .ok ops) :
    List.Forall₂ (fun opAt item => opAt.offset = item.1 ∧
      translateInstr program function all item.1 item.2 = .ok (some opAt.op))
      ops (working items) := by
  induction items generalizing ops with
  | nil =>
    cases h
    exact .nil
  | cons item items ih =>
    obtain ⟨offset, instr⟩ := item
    obtain ⟨op?, later, hop, hlater, rfl⟩ := translateItems_cons_eq_ok_iff.1 h
    cases op? with
    | none =>
      rw [translateInstr_eq_none_iff] at hop
      subst hop
      simpa [working] using ih hlater
    | some op =>
      have hnop : instr ≠ .nop := by
        intro hnop
        simp [translateInstr_eq_none_iff.2 hnop] at hop
      have hworking : working ((offset, instr) :: items) = (offset, instr) :: working items := by
        simp [working, hnop]
      rw [hworking]
      exact .cons ⟨rfl, hop⟩ (ih hlater)

end Instructions

section Functions

variable {program : Program} {function : Function} {code : ThreadedCode}

theorem translate_eq_ok_iff : translate program function = .ok code ↔
    (Listing.ofCode function.code).error? = none ∧ ∃ ops,
      translateItems program function (Listing.ofCode function.code).items
        (Listing.ofCode function.code).items = .ok ops ∧ code = ⟨function, ops.toArray⟩ := by
  unfold translate
  simp only
  cases (Listing.ofCode function.code).error? with
  | some error => simp
  | none => simp [bind_eq_ok_iff, eq_comm (a := code)]

theorem exists_translate_iff :
    (∃ code, translate program function = .ok code) ↔ Compilable program function.code := by
  have hsorted := pairwise_items function.code 0
  simp only [translate_eq_ok_iff]
  constructor
  · rintro ⟨_, herror, ops, hops, rfl⟩
    refine ⟨?_, fun offset instr hitem => ?_⟩
    · simpa using exists_ofInstructions herror
    · exact (exists_translateInstr_iff hsorted).1
        (exists_translateItems_iff.1 ⟨ops, hops⟩ offset instr hitem)
  · intro h
    obtain ⟨instrs, hinstrs⟩ := h.readable
    have htranslate : ∃ ops, translateItems program function (Listing.ofCode function.code).items
        (Listing.ofCode function.code).items = .ok ops :=
      exists_translateItems_iff.2 fun offset instr hitem =>
        (exists_translateInstr_iff hsorted).2 (h.fits offset instr hitem)
    obtain ⟨ops, hops⟩ := htranslate
    refine ⟨_, ?_, ops, hops, rfl⟩
    rw [ofCode, ofOffset_eq_ofInstructions (by rw [List.drop_zero, hinstrs]), error?_ofInstructions]

theorem renders_of_translate (h : translate program function = .ok code) :
    code.function = function ∧ code.Renders (Listing.ofCode function.code).items := by
  obtain ⟨-, ops, hops, rfl⟩ := translate_eq_ok_iff.1 h
  have hsorted := pairwise_items function.code 0
  have hall := forall₂_of_translateItems hops
  refine ⟨rfl, hall.imp fun opAt item hop => ?_, ?_⟩
  · exact ⟨hop.1, standsFor_of_translateInstr hsorted hop.2⟩
  · have hoffsets : ops.map (·.offset) =
        (working (Listing.ofCode function.code).items).map (·.1) := by
      rw [← List.forall₂_eq_eq_eq, List.forall₂_map_left_iff, List.forall₂_map_right_iff]
      exact hall.imp fun opAt item hop => hop.1
    rw [hoffsets]
    exact List.pairwise_map.2 (hsorted.filter _)

theorem compilable_of_checked {summary : StackSummary}
    (h : function.Checked program summary) : Compilable program function.code := by
  obtain ⟨instrs, depths, hwellformed, -, -, hlisting⟩ := h.exists_typing
  have hplaced : placed instrs = (Listing.ofCode function.code).items := by rw [hlisting, placed]
  have hstarts : starts instrs = (Listing.ofCode function.code).offsets := by rw [hlisting, starts]
  refine ⟨⟨instrs, hwellformed.encoded⟩, fun offset instr hitem => ?_⟩
  have hrange := hwellformed.operands instr (mem_of_mem_items (hplaced ▸ hitem))
  refine ⟨?_, ?_, ?_⟩
  · intro target htarget
    rw [← hstarts]
    exact hwellformed.targets offset instr target (hplaced ▸ hitem) htarget
  · cases instr with
    | pushArg word =>
      have hword : 0 ≤ word.toInt := hrange
      simpa [Instruction.indices] using hword
    | pushLocal word | popLocal word => simpa [Instruction.indices] using hrange.1
    | printString word =>
      obtain ⟨text, htext⟩ := h.strings offset word hitem
      obtain ⟨id, hid, -⟩ := Option.bind_eq_some_iff.1 htext
      simpa [Instruction.indices] using Word.exists_toIndex?_iff.1 ⟨id, hid⟩
    | call callee args =>
      obtain ⟨found, hfound, -⟩ := h.calls offset callee args hitem
      obtain ⟨id, hid, -⟩ := Option.bind_eq_some_iff.1 hfound
      simpa [Instruction.indices] using ⟨Word.exists_toIndex?_iff.1 ⟨id, hid⟩, hrange⟩
    | _ => simp [Instruction.indices]
  · intro callee args hcall
    subst hcall
    obtain ⟨found, hfound, -⟩ := h.calls offset callee args hitem
    obtain ⟨id, hid, hfunction⟩ := Option.bind_eq_some_iff.1 hfound
    exact ⟨id, found, hid, hfunction⟩

theorem landing_lt_of_checked {summary : StackSummary} (h : function.Checked program summary)
    {place : Nat} (hplace : place ∈ (Listing.ofCode function.code).offsets) :
    landing (Listing.ofCode function.code).items place <
      (working (Listing.ofCode function.code).items).length := by
  obtain ⟨instrs, depths, hwellformed, -, -, hlisting⟩ := h.exists_typing
  obtain ⟨last, hlast, hterminal⟩ := hwellformed.closed
  obtain ⟨k, hitem, hbehind⟩ := exists_last hlast 0
  rw [← hlisting] at hitem hbehind
  refine landing_lt (List.mem_filter.2 ⟨hitem, ?_⟩) (hbehind place hplace)
  have hnop : last ≠ .nop := by
    rintro rfl
    cases hterminal
  simpa using hnop

/-- A function is compiled if and only if its code can be. Then each instruction that does something
has one operation, with the same operands, and jumps lead to the first operation that does not come
from further up than the target. In accepted programs all functions are compiled, and no jump leads
past the last operation. -/
theorem translate_renders (program : Program) (function : Function) :
    ((∃ code, translate program function = .ok code) ↔ Compilable program function.code) ∧
    (∀ code, translate program function = .ok code →
      code.function = function ∧ code.Renders (Listing.ofCode function.code).items) ∧
    (program.Accepted → function ∈ program.functions →
      ∃ code, translate program function = .ok code ∧
        ∀ opAt ∈ code.ops, ∀ n, opAt.op.target? = some n → n < code.ops.size) := by
  refine ⟨exists_translate_iff, fun code => renders_of_translate, fun haccepted hmem => ?_⟩
  obtain ⟨id, hid⟩ := Array.mem_iff_getElem?.1 hmem
  obtain ⟨-, summary, hchecked⟩ := haccepted.checked hid
  obtain ⟨code, hcode⟩ := exists_translate_iff.2 (compilable_of_checked hchecked)
  refine ⟨code, hcode, fun opAt hopAt n htarget => ?_⟩
  obtain ⟨-, ops, hops, rfl⟩ := translate_eq_ok_iff.1 hcode
  obtain ⟨-, hrenders⟩ := renders_of_translate hcode
  obtain ⟨instr, hitem, hop⟩ := exists_instr_of_mem_ops hops (by simpa using hopAt)
  obtain ⟨word, place, hword, hplace, rfl⟩ :=
    (standsFor_of_translateInstr (pairwise_items function.code 0) hop).target htarget
  obtain ⟨place', hplace', hstart⟩ :=
    ((compilable_of_checked hchecked).fits _ _ hitem).target word hword
  rw [hplace, Option.some.injEq] at hplace'
  subst hplace'
  have hlt := landing_lt_of_checked hchecked hstart
  rwa [← hrenders.ops.length_eq, Array.length_toList] at hlt

def waiting : Program where
  name := "waiting"
  functions := #[
    { name := "main", id := 0, argCount := 1, localCount := 0, maxStackDepth := 2
      code := (List.flatMap Instruction.encode [.nop, .pushArg 0, .pushConstant 0,
        .branch .greater 0, .jump 37, .nop, .nop, .halt]).toArray }]
  strings := #[]

theorem waiting_accepted : waiting.Accepted :=
  Program.Verifies.accepted (by decide +kernel) (by decide +kernel)

theorem translate_renders_waiting : ∃ code, translate waiting waiting.functions[0] = .ok code ∧
    code.ops = #[⟨.pushArg 0, 1⟩, ⟨.pushConstant 0, 10⟩, ⟨.branch .greater 0, 19⟩, ⟨.jump 4, 28⟩,
      ⟨.halt, 39⟩] ∧
    ∀ opAt ∈ code.ops, ∀ n, opAt.op.target? = some n → n < code.ops.size := by
  obtain ⟨code, hcode, htargets⟩ :=
    (translate_renders waiting waiting.functions[0]).2.2 waiting_accepted (by simp)
  have hops : (translate waiting waiting.functions[0]).toOption.map (·.ops) =
      some #[⟨.pushArg 0, 1⟩, ⟨.pushConstant 0, 10⟩, ⟨.branch .greater 0, 19⟩, ⟨.jump 4, 28⟩,
        ⟨.halt, 39⟩] := by
    decide +kernel
  rw [hcode] at hops
  exact ⟨code, hcode, Option.some.inj hops, htargets⟩

end Functions

end ThreadedCode
end TieredVM
