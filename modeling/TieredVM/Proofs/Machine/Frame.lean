import Mathlib.Tactic.Common
import TieredVM.Machine.Frame
import TieredVM.Proofs.Except
set_option autoImplicit false

namespace TieredVM.Frame

/-- The slots of operand stack and locals are there, and the operand stack keeps to its own. -/
structure InBounds (frame : Frame) : Prop where
  depth_le : frame.depth ≤ frame.stackSlots
  slots : frame.stackSlots + frame.localSlots ≤ frame.slots.size

section InBounds

variable {frame : Frame}

theorem inBounds_enter (function : Function) (args : Array Int64) :
    (enter function args).InBounds where
  depth_le := Nat.zero_le _
  slots := by
    by_cases hlarge : inlineSlots < function.frameSlots
    · simp only [enter, if_pos hlarge, Array.size_replicate]
      exact Nat.le_refl _
    · simp only [enter, if_neg hlarge, Array.size_replicate]
      exact Nat.le_of_not_lt hlarge

theorem InBounds.exists_read (h : frame.InBounds) (slot : Nat)
    (hslot : slot < frame.stackSlots + frame.localSlots) :
    ∃ value, frame.slots[slot]? = some value ∧ frame.read slot = .ok value := by
  have hlt := Nat.lt_of_lt_of_le hslot h.slots
  exact ⟨frame.slots[slot], by simp [hlt], by simp [read, hlt]⟩

theorem InBounds.write_eq (h : frame.InBounds) (slot : Nat) (value : Int64)
    (hslot : slot < frame.stackSlots + frame.localSlots) :
    frame.write slot value = .ok { frame with slots := frame.slots.setIfInBounds slot value } := by
  have hlt := Nat.lt_of_lt_of_le hslot h.slots
  simp [write, hlt, Array.setIfInBounds]

theorem InBounds.push_eq (h : frame.InBounds) (value : Int64)
    (hdepth : frame.depth < frame.stackSlots) :
    frame.push value = .ok { frame with
      slots := frame.slots.setIfInBounds frame.depth value
      depth := frame.depth + 1 } := by
  simp [push, hdepth, h.write_eq frame.depth value (by omega)]

theorem InBounds.above_eq (h : frame.InBounds) {base : Nat} (hbase : base ≤ frame.depth) :
    frame.above base = .ok (frame.slots.extract base frame.depth) := by
  have hdepth := h.depth_le
  have hslots := h.slots
  rw [above, slice, if_pos ⟨hbase, by omega⟩]

theorem InBounds.truncate (h : frame.InBounds) (base : Nat) : (frame.truncate base).InBounds :=
  ⟨Nat.le_trans (Nat.min_le_left _ _) h.depth_le, h.slots⟩

end InBounds

/-- A frame with the slots that a function needs, whose operand stack is not higher than that. -/
structure Fits (function : Function) (frame : Frame) : Prop where
  stackSlots : frame.stackSlots = function.maxStackDepth
  localSlots : frame.localSlots = function.localCount
  slots : function.maxStackDepth + function.localCount ≤ frame.slots.size
  depth_le : frame.depth ≤ function.maxStackDepth
  args : frame.args.size = function.argCount

variable {function : Function} {frame : Frame}

theorem fits_enter {args : Array Int64} (h : args.size = function.argCount) :
    Fits function (enter function args) where
  stackSlots := rfl
  localSlots := rfl
  slots := (inBounds_enter function args).slots
  depth_le := Nat.zero_le _
  args := h

theorem Fits.inBounds (h : Fits function frame) : frame.InBounds where
  depth_le := h.stackSlots ▸ h.depth_le
  slots := by
    rw [h.stackSlots, h.localSlots]
    exact h.slots

theorem Fits.exists_read (h : Fits function frame) (slot : Nat)
    (hslot : slot < function.maxStackDepth + function.localCount) :
    ∃ value, frame.read slot = .ok value := by
  rw [← h.stackSlots, ← h.localSlots] at hslot
  obtain ⟨value, -, hread⟩ := h.inBounds.exists_read slot hslot
  exact ⟨value, hread⟩

theorem Fits.exists_write (h : Fits function frame) (slot : Nat) (value : Int64)
    (hslot : slot < function.maxStackDepth + function.localCount) :
    ∃ next, frame.write slot value = .ok next ∧ Fits function next ∧ next.depth = frame.depth := by
  rw [← h.stackSlots, ← h.localSlots] at hslot
  refine ⟨_, h.inBounds.write_eq slot value hslot, ?_, rfl⟩
  exact { h with slots := by simpa using h.slots }

theorem Fits.exists_push (h : Fits function frame) (value : Int64)
    (hdepth : frame.depth < function.maxStackDepth) :
    ∃ next, frame.push value = .ok next ∧ Fits function next ∧ next.depth = frame.depth + 1 := by
  have hlt : frame.depth < frame.stackSlots := by rw [h.stackSlots]; exact hdepth
  refine ⟨_, h.inBounds.push_eq value hlt, ?_, rfl⟩
  exact { h with slots := by simpa using h.slots, depth_le := hdepth }

theorem Fits.exists_pop (h : Fits function frame) (hdepth : 0 < frame.depth) :
    ∃ value next, frame.pop = .ok (value, next) ∧ Fits function next ∧
      next.depth = frame.depth - 1 := by
  have hle := h.depth_le
  obtain ⟨depth, hd⟩ := Nat.exists_eq_add_one_of_ne_zero (Nat.ne_of_gt hdepth)
  obtain ⟨value, hread⟩ := h.exists_read depth (by omega)
  refine ⟨value, { frame with depth }, ?_, ?_, by simp [hd]⟩
  · simp only [pop, hd, hread, ok_bind, pure_eq_ok]
  · exact { h with depth_le := by simp only; omega }

theorem Fits.exists_pop_pop (h : Fits function frame) (hdepth : 2 ≤ frame.depth) :
    ∃ right first left second, frame.pop = .ok (right, first) ∧ first.pop = .ok (left, second) ∧
      Fits function second ∧ second.depth = frame.depth - 2 := by
  obtain ⟨right, first, hright, hfirst, hd⟩ := h.exists_pop (by omega)
  obtain ⟨left, second, hleft, hsecond, hd'⟩ := hfirst.exists_pop (by omega)
  exact ⟨right, first, left, second, hright, hleft, hsecond, by omega⟩

theorem Fits.exists_peek (h : Fits function frame) (hdepth : 0 < frame.depth) :
    ∃ value, frame.peek = .ok value := by
  have hle := h.depth_le
  obtain ⟨depth, hd⟩ := Nat.exists_eq_add_one_of_ne_zero (Nat.ne_of_gt hdepth)
  obtain ⟨value, hread⟩ := h.exists_read depth (by omega)
  exact ⟨value, by simp only [peek, hd, hread]⟩

theorem Fits.exists_arg (h : Fits function frame) {index : Nat}
    (hindex : index < function.argCount) : ∃ value, frame.arg index = .ok value := by
  have hlt : index < frame.args.size := by rw [h.args]; exact hindex
  simp [arg, hlt]

theorem Fits.exists_local (h : Fits function frame) {index : Nat}
    (hindex : index < function.localCount) : ∃ value, frame.local? index = .ok value := by
  obtain ⟨value, hread⟩ := h.exists_read (function.maxStackDepth + index) (by omega)
  exact ⟨value, by rw [local?, h.localSlots, if_pos hindex, h.stackSlots, hread]⟩

theorem Fits.exists_setLocal (h : Fits function frame) {index : Nat} (value : Int64)
    (hindex : index < function.localCount) :
    ∃ next, frame.setLocal index value = .ok next ∧ Fits function next ∧
      next.depth = frame.depth := by
  obtain ⟨next, hwrite, hnext⟩ := h.exists_write (function.maxStackDepth + index) value (by omega)
  exact ⟨next, by rw [setLocal, h.localSlots, if_pos hindex, h.stackSlots, hwrite], hnext⟩

theorem Fits.exists_above (h : Fits function frame) {base : Nat} (hbase : base ≤ frame.depth) :
    ∃ values, frame.above base = .ok values ∧ values.size = frame.depth - base := by
  have hdepth := h.depth_le
  have hslots := h.slots
  refine ⟨_, h.inBounds.above_eq hbase, ?_⟩
  rw [Array.size_extract]
  omega

theorem Fits.truncate (h : Fits function frame) (base : Nat) :
    Fits function (frame.truncate base) :=
  { h with depth_le := Nat.le_trans (Nat.min_le_left _ _) h.depth_le }

end TieredVM.Frame
