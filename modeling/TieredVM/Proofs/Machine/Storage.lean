import Mathlib.Data.List.Induction
import TieredVM.Machine.Access
import TieredVM.Proofs.Machine.Contents
set_option autoImplicit false

namespace TieredVM.Frame

/-- An operand stack of at most `capacity` values, the lowest first, and `count` locals. -/
structure Content (capacity count : Nat) where
  stack : List Int64
  locals : Vector Int64 count
  stack_le : stack.length ≤ capacity

namespace Content

variable {capacity count : Nat}

def empty (capacity count : Nat) : Content capacity count where
  stack := []
  locals := .replicate count 0
  stack_le := Nat.zero_le _

def answer : Option Int64 → Except Denial Answer
  | none => .error .refused
  | some value => .ok (.value value)

def perform (args : Array Int64) (content : Content capacity count) :
    Access → Except Denial Answer × Content capacity count
  | .push value =>
    if h : content.stack.length < capacity then
      (.ok .done, { content with
        stack := content.stack ++ [value]
        stack_le := by
          rw [List.length_append]
          exact Nat.succ_le_of_lt h })
    else
      (.error .refused, content)
  | .pop => (answer content.stack.getLast?, { content with
      stack := content.stack.dropLast
      stack_le := Nat.le_trans content.stack.dropLast_sublist.length_le content.stack_le })
  | .peek => (answer content.stack.getLast?, content)
  | .truncate depth => (.ok .done, { content with
      stack := content.stack.take depth
      stack_le := Nat.le_trans (List.length_take_le' _ _) content.stack_le })
  | .args => (.ok (.values args), content)
  | .arg index => (answer args[index]?, content)
  | .getLocal index => (answer content.locals[index]?, content)
  | .setLocal index value =>
    if h : index < count then
      (.ok .done, { content with locals := content.locals.set index value })
    else
      (.error .refused, content)

def observe (args : Array Int64) (content : Content capacity count) : List Access → List View
  | [] => []
  | access :: rest =>
    let (answer, next) := content.perform args access
    { answer, depth := next.stack.length, stack := .ok next.stack.toArray,
      locals := .ok next.locals.toArray } :: next.observe args rest

end Content

abbrev Stores (function : Function) (args : Array Int64)
    (content : Content function.maxStackDepth function.localCount) (frame : Frame) : Prop :=
  Holds function args content.stack content.locals.toList frame

variable {function : Function} {args : Array Int64} {frame : Frame}
  {content : Content function.maxStackDepth function.localCount}

theorem Stores.perform (h : Stores function args content frame) (access : Access) :
    (frame.perform access).1 = (content.perform args access).1 ∧
      Stores function args (content.perform args access).2 (frame.perform access).2 := by
  obtain ⟨stack, locals, hle⟩ := content
  cases access with
  | push value =>
    by_cases hroom : stack.length < function.maxStackDepth
    · obtain ⟨next, hpush, hnext⟩ := h.exists_push value hroom
      simp only [Frame.perform, Content.perform, changed, hpush, dif_pos hroom]
      exact ⟨trivial, hnext⟩
    · simp only [Frame.perform, Content.perform, changed, h.push_refused value hroom,
        dif_neg hroom]
      exact ⟨trivial, h⟩
  | pop =>
    cases stack using List.reverseRecOn with
    | nil =>
      simp only [Frame.perform, h.pop_refused]
      exact ⟨rfl, h⟩
    | append_singleton stack value _ =>
      obtain ⟨next, hpop, hnext⟩ := h.exists_pop
      simp only [Frame.perform, Content.perform, hpop, List.getLast?_concat]
      exact ⟨rfl, by simpa only [Stores, List.dropLast_concat] using hnext⟩
  | peek =>
    cases stack using List.reverseRecOn with
    | nil =>
      simp only [Frame.perform, h.peek_refused]
      exact ⟨rfl, h⟩
    | append_singleton stack value _ =>
      simp only [Frame.perform, Content.perform, h.peek_eq, List.getLast?_concat]
      exact ⟨rfl, h⟩
  | truncate depth => exact ⟨rfl, h.take depth⟩
  | args => exact ⟨by simp only [Frame.perform, Content.perform, h.args], h⟩
  | arg index =>
    refine ⟨?_, h⟩
    simp only [Frame.perform, Content.perform, Frame.arg, h.args]
    cases args[index]? <;> rfl
  | getLocal index =>
    refine ⟨?_, h⟩
    by_cases hindex : index < function.localCount
    · have hvalue : locals.toList[index]? = some locals[index] := by simp [hindex]
      simp only [Frame.perform, Content.perform, h.local_eq hvalue, hindex,
        Vector.getElem?_eq_getElem]
      rfl
    · simp only [Frame.perform, Content.perform, h.local_refused hindex,
        Vector.getElem?_eq_none (Nat.le_of_not_lt hindex)]
      rfl
  | setLocal index value =>
    by_cases hindex : index < function.localCount
    · obtain ⟨next, hset, hnext⟩ := h.exists_setLocal value hindex
      simp only [Frame.perform, Content.perform, changed, hset, dif_pos hindex]
      exact ⟨trivial, by simpa only [Stores, Vector.toList_set] using hnext⟩
    · simp only [Frame.perform, Content.perform, changed, h.setLocal_refused value hindex,
        dif_neg hindex]
      exact ⟨trivial, h⟩

theorem Stores.observe_eq (h : Stores function args content frame) (accesses : List Access) :
    frame.observe accesses = content.observe args accesses := by
  induction accesses generalizing frame content with
  | nil => rfl
  | cons access rest ih =>
    obtain ⟨hanswer, hnext⟩ := h.perform access
    simp only [Frame.observe, Content.observe, hanswer, hnext.depth_eq, hnext.stack_eq,
      hnext.locals_eq, ih hnext, Vector.toArray_toList]

theorem stores_zeroed (function : Function) (args : Array Int64) {size : Nat}
    (hsize : function.frameSlots ≤ size) (onHeap : Bool) :
    Stores function args (.empty _ _)
      { enter function args with slots := .replicate size 0, onHeap } := by
  have hlocals : (Content.empty function.maxStackDepth function.localCount).locals.toList =
      List.replicate function.localCount 0 := Vector.toList_replicate
  rw [Stores, hlocals]
  exact holds_zeroed function args hsize onHeap

/-- A new frame is seen as an empty operand stack and zero in all locals, and so is any frame of the
same bounds with other storage: only the flag tells which is kept on the heap. -/
theorem observe_enter (function : Function) (args : Array Int64) (accesses : List Access) :
    (enter function args).observe accesses =
        (Content.empty function.maxStackDepth function.localCount).observe args accesses ∧
      (∀ (size : Nat) (onHeap : Bool), function.frameSlots ≤ size →
        ({ enter function args with slots := .replicate size 0, onHeap } : Frame).observe accesses =
          (Content.empty function.maxStackDepth function.localCount).observe args accesses) ∧
      ((enter function args).onHeap = true ↔
        8 < function.maxStackDepth + function.localCount) := by
  have hzeroed := fun (size : Nat) onHeap (hsize : function.frameSlots ≤ size) =>
    (stores_zeroed function args hsize onHeap).observe_eq accesses
  refine ⟨?_, hzeroed, decide_eq_true_iff⟩
  have hslots := (inBounds_enter function args).slots
  simp only [enter, Array.size_replicate] at hslots
  exact hzeroed _ _ hslots

def narrow : Function :=
  { name := "narrow", id := 0, argCount := 1, localCount := 1, maxStackDepth := 1, code := #[] }

def crowding : List Access :=
  [.push 5, .push 6, .setLocal 0 7, .setLocal 1 8, .pop, .pop, .getLocal 0, .arg 0, .peek]

theorem observe_enter_crowding : narrow.frameSlots ≤ 2 ∧
    ({ enter narrow #[9] with slots := .replicate 2 0, onHeap := true } : Frame).observe crowding =
      (enter narrow #[9]).observe crowding ∧
    ((enter narrow #[9]).observe crowding).map (·.answer) =
      [.ok .done, .error .refused, .ok .done, .error .refused, .ok (.value 5), .error .refused,
        .ok (.value 7), .ok (.value 9), .error .refused] := by
  obtain ⟨hentered, hstored, -⟩ := observe_enter narrow #[9] crowding
  have hsize : narrow.frameSlots ≤ 2 := by decide
  exact ⟨hsize, (hstored 2 true hsize).trans hentered.symm, by decide +kernel⟩

end TieredVM.Frame
