import TieredVM.Proofs.Machine.Frame
set_option autoImplicit false

namespace TieredVM.Frame

/-- A frame of a function with the given arguments, values on the operand stack and locals. -/
structure Holds (function : Function) (args : Array Int64) (stack locals : List Int64)
    (frame : Frame) : Prop where
  inBounds : frame.InBounds
  stackSlots : frame.stackSlots = function.maxStackDepth
  localSlots : frame.localSlots = function.localCount
  args : frame.args = args
  stack : frame.slots.toList.take frame.depth = stack
  locals : (frame.slots.toList.drop frame.stackSlots).take frame.localSlots = locals

variable {function : Function} {args : Array Int64} {stack locals kept values : List Int64}
  {frame : Frame}

theorem holds_zeroed (function : Function) (args : Array Int64) {size : Nat}
    (hsize : function.frameSlots ≤ size) (onHeap : Bool) :
    Holds function args [] (List.replicate function.localCount 0)
      { enter function args with slots := .replicate size 0, onHeap } := by
  have hlocals : function.localCount ≤ size - function.maxStackDepth := by
    rw [Function.frameSlots] at hsize
    omega
  have hslots : function.frameSlots ≤ (Array.replicate size (0 : Int64)).size := by
    rw [Array.size_replicate]
    exact hsize
  refine ⟨⟨Nat.zero_le _, hslots⟩, rfl, rfl, rfl, rfl, ?_⟩
  simp only [enter, Array.toList_replicate, List.drop_replicate, List.take_replicate,
    Nat.min_eq_left hlocals]

theorem holds_enter (function : Function) (args : Array Int64) :
    Holds function args [] (List.replicate function.localCount 0) (enter function args) := by
  have hslots := (inBounds_enter function args).slots
  simp only [enter, Array.size_replicate] at hslots
  exact holds_zeroed function args hslots _

theorem Holds.depth_eq (h : Holds function args stack locals frame) :
    frame.depth = stack.length := by
  have hdepth := h.inBounds.depth_le
  have hslots := h.inBounds.slots
  rw [← h.stack, List.length_take, Array.length_toList]
  omega

theorem Holds.exists_push (h : Holds function args stack locals frame) (value : Int64)
    (hroom : stack.length < function.maxStackDepth) :
    ∃ next, frame.push value = .ok next ∧ Holds function args (stack ++ [value]) locals next := by
  have hslots := h.inBounds.slots
  have hdepth : frame.depth < frame.stackSlots := by
    rw [h.depth_eq, h.stackSlots]
    exact hroom
  have hlt : frame.depth < frame.slots.toList.length := by
    rw [Array.length_toList]
    omega
  refine ⟨_, h.inBounds.push_eq value hdepth, ⟨hdepth, by simpa using hslots⟩, h.stackSlots,
    h.localSlots, h.args, ?_, ?_⟩
  · simp only [Array.toList_setIfInBounds]
    rw [List.take_add_one, List.take_set_of_le (Nat.le_refl _), h.stack, List.getElem?_set_self hlt]
    rfl
  · simp only [Array.toList_setIfInBounds]
    rw [List.drop_set_of_lt hdepth, h.locals]

theorem Holds.exists_pop {value : Int64}
    (h : Holds function args (stack ++ [value]) locals frame) :
    ∃ next, frame.pop = .ok (value, next) ∧ Holds function args stack locals next := by
  have hdepth := h.inBounds.depth_le
  have hlength : frame.depth = stack.length + 1 := by simpa using h.depth_eq
  obtain ⟨found, hfound, hread⟩ := h.inBounds.exists_read stack.length (by omega)
  have hstack := h.stack
  rw [hlength, List.take_add_one, Array.getElem?_toList, hfound] at hstack
  obtain ⟨hrest, hvalue⟩ := List.append_inj' hstack rfl
  refine ⟨{ frame with depth := stack.length }, ?_, ⟨?_, h.inBounds.slots⟩, h.stackSlots,
    h.localSlots, h.args, hrest, h.locals⟩
  · simp only [pop, hlength, hread, ok_bind, pure_eq_ok]
    simpa using hvalue
  · simp only
    omega

theorem Holds.exists_pop_pop {left right : Int64}
    (h : Holds function args (stack ++ [left, right]) locals frame) :
    ∃ first second, frame.pop = .ok (right, first) ∧ first.pop = .ok (left, second) ∧
      Holds function args stack locals second := by
  rw [List.append_cons] at h
  obtain ⟨first, hright, hfirst⟩ := h.exists_pop
  obtain ⟨second, hleft, hsecond⟩ := hfirst.exists_pop
  exact ⟨first, second, hright, hleft, hsecond⟩

theorem Holds.above_eq (h : Holds function args (kept ++ values) locals frame) :
    frame.above kept.length = .ok values.toArray := by
  have hlength : frame.depth = kept.length + values.length := by simpa using h.depth_eq
  rw [h.inBounds.above_eq (by omega), Except.ok.injEq]
  apply Array.toList_inj.1
  rw [Array.toList_extract, List.extract_eq_drop_take', h.stack, List.drop_left]

theorem Holds.take (h : Holds function args stack locals frame) (depth : Nat) :
    Holds function args (stack.take depth) locals (frame.truncate depth) := by
  refine ⟨h.inBounds.truncate _, h.stackSlots, h.localSlots, h.args, ?_, h.locals⟩
  rw [← h.stack, List.take_take, Nat.min_comm]
  rfl

theorem Holds.truncate (h : Holds function args (kept ++ values) locals frame) :
    Holds function args kept locals (frame.truncate kept.length) := by
  have htake := h.take kept.length
  rwa [List.take_left] at htake

theorem Holds.stack_eq (h : Holds function args stack locals frame) :
    frame.stack = .ok stack.toArray := by
  have hdepth := h.inBounds.depth_le
  have hslots := h.inBounds.slots
  rw [Frame.stack, slice, if_pos ⟨Nat.zero_le _, by omega⟩, Except.ok.injEq]
  apply Array.toList_inj.1
  rw [Array.toList_extract, List.extract_eq_drop_take', List.drop_zero, h.stack]

theorem Holds.locals_eq (h : Holds function args stack locals frame) :
    frame.locals = .ok locals.toArray := by
  rw [Frame.locals, slice, if_pos ⟨Nat.le_add_right _ _, h.inBounds.slots⟩, Except.ok.injEq]
  apply Array.toList_inj.1
  rw [Array.toList_extract, List.extract_eq_take_drop, Nat.add_sub_cancel_left, h.locals]

theorem Holds.push_refused (h : Holds function args stack locals frame) (value : Int64)
    (hfull : ¬ stack.length < function.maxStackDepth) : frame.push value = .error .refused := by
  rw [push, h.depth_eq, h.stackSlots, if_neg hfull]

theorem Holds.pop_refused (h : Holds function args [] locals frame) :
    frame.pop = .error .refused := by
  have hdepth : frame.depth = 0 := h.depth_eq
  simp only [pop, hdepth]

theorem Holds.peek_refused (h : Holds function args [] locals frame) :
    frame.peek = .error .refused := by
  have hdepth : frame.depth = 0 := h.depth_eq
  simp only [peek, hdepth]

theorem Holds.peek_eq {value : Int64} (h : Holds function args (stack ++ [value]) locals frame) :
    frame.peek = .ok value := by
  obtain ⟨next, hpop, -⟩ := h.exists_pop
  have hlength : frame.depth = stack.length + 1 := by simpa using h.depth_eq
  simp only [pop, hlength, bind_eq_ok_iff, pure_eq_ok, Except.ok.injEq, Prod.mk.injEq] at hpop
  obtain ⟨found, hread, rfl, -⟩ := hpop
  simp only [peek, hlength, hread]

theorem Holds.getElem?_slots (h : Holds function args stack locals frame) {index : Nat}
    (hindex : index < function.localCount) :
    frame.slots[frame.stackSlots + index]? = locals[index]? := by
  rw [← h.localSlots] at hindex
  rw [← h.locals, List.getElem?_take_of_lt hindex, List.getElem?_drop, Array.getElem?_toList]

theorem Holds.length_locals (h : Holds function args stack locals frame) :
    locals.length = function.localCount := by
  have hslots := h.inBounds.slots
  rw [← h.locals, List.length_take, List.length_drop, Array.length_toList, ← h.localSlots]
  omega

theorem Holds.local_eq (h : Holds function args stack locals frame) {index : Nat} {value : Int64}
    (hvalue : locals[index]? = some value) : frame.local? index = .ok value := by
  obtain ⟨hlt, -⟩ := List.getElem?_eq_some_iff.1 hvalue
  rw [h.length_locals] at hlt
  simp only [local?, h.localSlots, if_pos hlt, read, h.getElem?_slots hlt, hvalue]

theorem Holds.local_refused (h : Holds function args stack locals frame) {index : Nat}
    (hindex : ¬ index < function.localCount) : frame.local? index = .error .refused := by
  rw [local?, h.localSlots, if_neg hindex]

theorem Holds.exists_setLocal (h : Holds function args stack locals frame) {index : Nat}
    (value : Int64) (hindex : index < function.localCount) :
    ∃ next, frame.setLocal index value = .ok next ∧
      Holds function args stack (locals.set index value) next := by
  have hdepth := h.inBounds.depth_le
  have hslots := h.inBounds.slots
  rw [← h.localSlots] at hindex
  have hwrite := h.inBounds.write_eq (frame.stackSlots + index) value (by omega)
  refine ⟨_, (if_pos hindex).trans hwrite, ⟨hdepth, by simpa using hslots⟩,
    h.stackSlots, h.localSlots, h.args, ?_, ?_⟩
  · simp only [Array.toList_setIfInBounds]
    rw [List.take_set_of_le (by omega), h.stack]
  · simp only [Array.toList_setIfInBounds]
    rw [List.drop_set, if_neg (by omega), Nat.add_sub_cancel_left, List.take_set, h.locals]

theorem Holds.setLocal_refused (h : Holds function args stack locals frame) {index : Nat}
    (value : Int64) (hindex : ¬ index < function.localCount) :
    frame.setLocal index value = .error .refused := by
  rw [setLocal, h.localSlots, if_neg hindex]

theorem Holds.arg_eq (h : Holds function args stack locals frame) {index : Nat} {value : Int64}
    (hvalue : args[index]? = some value) : frame.arg index = .ok value := by
  rw [arg, h.args, hvalue]

end TieredVM.Frame
