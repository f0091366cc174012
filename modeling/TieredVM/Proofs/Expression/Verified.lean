import TieredVM.Proofs.Expression.Basic
set_option autoImplicit false

namespace TieredVM

open Listing

namespace StackDepth.Walk

/-- A walk that has come to an offset without passing a jump or a local. -/
structure Straight (offset height : Nat) (walk : Walk) : Prop where
  keys : ∀ k n, walk.depths[k]? = some n → k < offset
  ahead : walk.ahead = []
  localCount : walk.localCount = 0
  maxStackDepth : walk.maxStackDepth = height

/-- Instructions that change the depth from `before` to `after` and never rise above `height`. -/
def Crosses (size before after height : Nat) (instrs : List Instruction) : Prop :=
  ∀ offset top walk rest, Straight offset top walk →
    ∃ next, Straight (offset + (instrs.flatMap Instruction.encode).length) (max top height) next ∧
      ∀ final, through size
        (ofInstructions (offset + (instrs.flatMap Instruction.encode).length) rest)
        (some after) next = .ok final →
      through size (ofInstructions offset (instrs ++ rest)) (some before) walk = .ok final

variable {size before between after height height' : Nat} {instrs later : List Instruction}

theorem crosses_nil (size depth : Nat) : Crosses size depth depth 0 [] := by
  intro offset top walk rest hwalk
  refine ⟨walk, by simpa using hwalk, fun final hfinal => by simpa using hfinal⟩

theorem Crosses.append (h : Crosses size before between height instrs)
    (h' : Crosses size between after height' later) :
    Crosses size before after (max height height') (instrs ++ later) := by
  intro offset top walk rest hwalk
  obtain ⟨next, hnext, hthrough⟩ := h offset top walk (later ++ rest) hwalk
  obtain ⟨last, hlast, hthrough'⟩ := h' _ _ next rest hnext
  rw [List.flatMap_append, List.length_append, ← Nat.add_assoc, ← Nat.max_assoc,
    List.append_assoc]
  exact ⟨last, hlast, fun final hfinal => hthrough final (hthrough' final hfinal)⟩

theorem crosses_single {instr : Instruction} (hrange : instr.InRange) (hpops : instr.pops ≤ before)
    (hjump : instr.jumpTarget? = none) (hlocal : instr.local? = none)
    (hflow : instr.opcode.isTerminal = false) :
    Crosses size before (instr.after before) (instr.after before) [instr] := by
  intro offset top walk rest hwalk
  have hlength : ([instr].flatMap Instruction.encode).length = instr.encodedLength := by
    simp [instr.length_encode]
  have hpos := instr.encodedLength_pos
  have hused : instr.localsUsed = 0 := by simp [Instruction.localsUsed, hlocal]
  have hpasses : Passes size offset instr (some before) walk before
      (walk.seen offset instr before) := by
    refine ⟨by simp, by simp, fun n hn => ?_, hrange, ?_, hpops, by simp [hjump]⟩
    · exact absurd (hwalk.keys offset n hn) (Nat.lt_irrefl _)
    · rintro rfl
      cases hflow
  rw [hlength]
  refine ⟨walk.seen offset instr before, ⟨?_, hwalk.ahead, ?_, ?_⟩, fun final hfinal => ?_⟩
  · intro k n hk
    rw [getElem?_seen] at hk
    split at hk
    · omega
    · have hlt := hwalk.keys k n hk
      omega
  · simp [seen, hwalk.localCount, hused]
  · simp [seen, hwalk.maxStackDepth]
  · refine through_item_eq_ok_iff.2 ⟨before, _, hpasses, ?_⟩
    rwa [flowAfter, hflow]

end StackDepth.Walk

namespace Expr

open StackDepth Walk

variable {arity? : Nat → Option Nat} {argCount : Nat} {e : Expr}

theorem crosses_all {size : Nat} {operands : List Expr}
    (h : ∀ operand ∈ operands, ∀ before,
      Crosses size before (before + 1) (before + operand.depth) operand.emit) (before : Nat) :
    Crosses size before (before + operands.length) (depthAbove before operands)
      (emitAll operands) := by
  induction operands generalizing before with
  | nil => exact crosses_nil size before
  | cons operand operands ih =>
    have hrest := ih (fun other hother => h other (List.mem_cons_of_mem _ hother)) (before + 1)
    have happend := (h operand List.mem_cons_self before).append hrest
    rwa [Nat.add_assoc, Nat.add_comm 1] at happend

theorem crosses_call (size before function : Nat) {count : Nat} (hsmall : count < 2 ^ 63) :
    Crosses size (before + count) (before + 1) (before + 1)
      [.call (Word.ofIndex function) (Word.ofIndex count)] := by
  let instr := Instruction.call (Word.ofIndex function) (Word.ofIndex count)
  obtain ⟨hrange, hpops⟩ : instr.InRange ∧ instr.pops = count :=
    Word.nonneg_of_toIndex? (Word.toIndex?_ofIndex hsmall)
  have hafter : instr.after (before + count) = before + 1 := by
    rw [Instruction.after, hpops, Nat.add_sub_cancel]
    rfl
  rw [← hafter]
  exact crosses_single hrange (hpops ▸ Nat.le_add_left _ _) rfl rfl rfl

theorem Scoped.crosses (h : e.Scoped arity? argCount) (size before : Nat) :
    Crosses size before (before + 1) (before + e.depth) e.emit := by
  induction h generalizing before with
  | constant value => exact crosses_single trivial (Nat.zero_le _) rfl rfl rfl
  | @argument index hlt hsmall =>
    refine crosses_single ?_ (Nat.zero_le _) rfl rfl rfl
    exact (Word.nonneg_of_toIndex? (Word.toIndex?_ofIndex hsmall)).1
  | @binary op left right _ _ ihl ihr =>
    have hrange : (Instruction.binary op).InRange := trivial
    have hop : Crosses size (before + 2) (before + 1) (before + 1) [.binary op] :=
      crosses_single hrange (Nat.le_add_left _ _) rfl rfl (by cases op <;> rfl)
    have happend := ((ihl before).append (ihr (before + 1))).append hop
    have hpos := left.depth_pos
    have hheight : max (max (before + left.depth) (before + 1 + right.depth)) (before + 1) =
        before + (Expr.binary op left right).depth := by
      simp only [depth]
      omega
    rwa [hheight] at happend
  | @call function operands _ _ hsmall _ ih =>
    have happend := (crosses_all ih before).append (crosses_call size before function hsmall)
    rwa [max_depthAbove] at happend

theorem ofCode_code (e : Expr) :
    Listing.ofCode e.code = ofInstructions 0 (e.emit ++ [.ret]) :=
  ofOffset_eq_ofInstructions (by simp [code])

theorem Scoped.simulate (h : e.Scoped arity? argCount) :
    ∃ summary, TieredVM.simulate e.code = .ok summary ∧ summary.localCount = 0 ∧
      summary.maxStackDepth = e.depth := by
  have hlisting := e.ofCode_code
  have hstart : Straight 0 0 {} := ⟨by simp, rfl, rfl, rfl⟩
  obtain ⟨walk, hwalk, hthrough⟩ := h.crosses e.code.size 0 0 0 {} [.ret] hstart
  rw [Nat.zero_add, Nat.zero_max, Nat.zero_add] at *
  have hret : Passes e.code.size e.size .ret (some 1) walk 1 (walk.seen e.size .ret 1) := by
    refine ⟨by simp, by simp, fun n hn => ?_, trivial, fun _ => rfl, Nat.le_refl 1, rfl⟩
    exact absurd (hwalk.keys _ n hn) (Nat.lt_irrefl _)
  let final := walk.seen e.size .ret 1
  have hfinal := hthrough final (through_item_eq_ok_iff.2 ⟨1, _, hret, rfl⟩)
  have hahead : final.ahead = [] := hwalk.ahead
  have hlocals : final.localCount = 0 := by
    simp [final, seen, hwalk.localCount, Instruction.localsUsed, Instruction.local?]
  have hheight : final.maxStackDepth = e.depth := by
    simp [final, seen, hwalk.maxStackDepth, Instruction.after, Instruction.pops,
      Instruction.pushes]
  refine ⟨⟨final.maxStackDepth, final.localCount, final.depths⟩, ?_, hlocals, hheight⟩
  simp only [TieredVM.simulate, hlisting, hfinal, ok_bind, hahead]
  rfl

theorem Scoped.linkDefect? {image : Image} {entry : FunctionEntry}
    (h : e.Scoped (fun id => (image.function? id).map (·.argCount)) entry.argCount)
    {instr : Instruction} (hinstr : instr ∈ e.emit) (offset : Nat) :
    image.linkDefect? entry offset instr = none := by
  induction h with
  | constant value =>
    cases List.mem_singleton.1 hinstr
    rfl
  | @argument index hlt hsmall =>
    cases List.mem_singleton.1 hinstr
    refine Image.linkDefect?_pushArg_eq_none_iff.2 fun n hn => ?_
    rw [Word.toIndex?_ofIndex hsmall] at hn
    cases hn
    exact hlt
  | binary op _ _ ihl ihr =>
    simp only [emit, List.mem_append, List.mem_singleton] at hinstr
    rcases hinstr with (hinstr | hinstr) | rfl
    · exact ihl hinstr
    · exact ihr hinstr
    · rfl
  | call harity hfunction _ _ ih =>
    simp only [emit, emitAll_eq_flatMap, List.mem_append, List.mem_flatMap,
      List.mem_singleton] at hinstr
    rcases hinstr with ⟨operand, hoperand, hinstr⟩ | rfl
    · exact ih operand hoperand hinstr
    · obtain ⟨found, hfound, hcount⟩ := Option.map_eq_some_iff.1 harity
      exact Image.linkDefect?_call_eq_none_iff.2
        ⟨_, found, Word.toIndex?_ofIndex hfunction, hfound, by rw [hcount]⟩

end Expr

namespace Image.Expresses

variable {image : Image} {bodies : Nat → Expr} {entry : FunctionEntry}

theorem lookup_iff (h : image.Expresses bodies) {id : Nat} :
    image.function? id = some entry ↔ entry ∈ image.functions ∧ entry.id = id :=
  function?_eq_some_iff (h.ids.nodup_iff.2 List.nodup_range)

theorem check (h : image.Expresses bodies) (hentry : entry ∈ image.functions) :
    entry.check = .ok ((bodies entry.id).toFunction entry) := by
  obtain ⟨summary, hsimulate, hlocals, hdepth⟩ := (h.inScope entry hentry).simulate
  refine FunctionEntry.check_eq_ok_iff.2 ⟨summary, ?_, by rw [Expr.toFunction, hlocals, hdepth]⟩
  rw [h.code entry hentry, hsimulate]

theorem linkDefects_eq_nil (h : image.Expresses bodies) (hentry : entry ∈ image.functions) :
    image.linkDefects entry = [] := by
  refine List.filterMap_eq_nil_iff.2 ?_
  rintro ⟨offset, instr⟩ hitem
  rw [h.code entry hentry, Expr.ofCode_code] at hitem
  rcases List.mem_append.1 (mem_of_mem_items hitem) with hinstr | hinstr
  · exact (h.inScope entry hentry).linkDefect? hinstr offset
  · cases List.mem_singleton.1 hinstr
    rfl

theorem exists_verify (h : image.Expresses bodies) : ∃ program, image.verify = .ok program := by
  have hstack : image.stackErrors = [] :=
    List.filterMap_eq_nil_iff.2 fun entry hentry => by simp only [h.check hentry]
  have hlinks : image.linkErrors = [] :=
    List.flatMap_eq_nil_iff.2 fun entry hentry => by rw [h.linkDefects_eq_nil hentry, List.map_nil]
  exact ⟨_, verify_eq_ok_iff.2 ⟨hstack, hlinks, rfl⟩⟩

theorem function?_eq {program : Program} (h : image.Expresses bodies)
    (hverify : image.verify = .ok program) (hentry : entry ∈ image.functions) :
    program.function? entry.id = some ((bodies entry.id).toFunction entry) :=
  (function?_of_verify h.ids hverify).2 ⟨⟨entry, hentry, h.check hentry⟩, rfl⟩

end Image.Expresses
end TieredVM
