import TieredVM.Proofs.Machine.Follow
import TieredVM.Proofs.Machine.Frame
import TieredVM.Proofs.Machine.Moves
set_option autoImplicit false

namespace TieredVM

/-- What comes of a computation that addresses only slots that exist. -/
inductive Contained {α : Type} (P : α → Prop) : Except Stop α → Prop
  | value {a : α} : P a → Contained P (.ok a)
  | halt : Contained P (.error .halt)
  | fault (fault : Fault) : Contained P (.error (.fault fault))

namespace Contained

variable {α β : Type} {P : α → Prop} {Q : β → Prop}

theorem ne_outOfRange {x : Except Stop α} (h : Contained P x) : x ≠ .error .outOfRange := by
  rintro rfl
  cases h

theorem of_ok {a : α} (h : Contained P (.ok a)) : P a := by
  cases h with
  | value ha => exact ha

theorem bind {x : Except Stop α} {f : α → Except Stop β} (h : Contained P x)
    (hf : ∀ a, P a → Contained Q (f a)) : Contained Q (x >>= f) := by
  cases h with
  | value ha => exact hf _ ha
  | halt => exact .halt
  | fault fault => exact .fault fault

theorem require (site : Site) (x : Option α) : Contained (fun _ => True) (site.require x) := by
  cases x with
  | none => exact .fault _
  | some a => exact .value trivial

end Contained

inductive Granted {α : Type} (P : α → Prop) : Except Denial α → Prop
  | ok {a : α} : P a → Granted P (.ok a)
  | refused : Granted P (.error .refused)

theorem Granted.contained {α : Type} {P : α → Prop} {x : Except Denial α} (h : Granted P x)
    (site : Site) : Contained P (site.grant x) := by
  cases h with
  | ok ha => exact .value ha
  | refused => exact .fault _

namespace Frame

variable {frame : Frame}

section InBounds

variable (h : frame.InBounds)
include h

theorem InBounds.granted_read (slot : Nat) (hslot : slot < frame.stackSlots + frame.localSlots) :
    Granted (fun _ => True) (frame.read slot) := by
  obtain ⟨value, -, hread⟩ := h.exists_read slot hslot
  rw [hread]
  exact .ok trivial

theorem InBounds.granted_push (value : Int64) : Granted InBounds (frame.push value) := by
  by_cases hdepth : frame.depth < frame.stackSlots
  · rw [h.push_eq value hdepth]
    exact .ok ⟨hdepth, by simpa using h.slots⟩
  · rw [push, if_neg hdepth]
    exact .refused

theorem InBounds.granted_pop : Granted (fun popped => popped.2.InBounds) frame.pop := by
  have hdepth := h.depth_le
  unfold pop
  split
  · exact .refused
  · rename_i depth heq
    obtain ⟨value, -, hread⟩ := h.exists_read depth (by omega)
    rw [hread, ok_bind, pure_eq_ok]
    exact .ok ⟨by simp only; omega, h.slots⟩

theorem InBounds.granted_peek : Granted (fun _ => True) frame.peek := by
  have hdepth := h.depth_le
  unfold peek
  split
  · exact .refused
  · exact h.granted_read _ (by omega)

theorem InBounds.granted_local (index : Nat) :
    Granted (fun _ => True) (frame.local? index) := by
  unfold local?
  split
  · exact h.granted_read _ (by omega)
  · exact .refused

theorem InBounds.granted_setLocal (index : Nat) (value : Int64) :
    Granted InBounds (frame.setLocal index value) := by
  unfold setLocal
  split
  · rw [h.write_eq _ value (by omega)]
    exact .ok ⟨h.depth_le, by simpa using h.slots⟩
  · exact .refused

theorem InBounds.exists_stack : ∃ values, frame.stack = .ok values :=
  ⟨_, h.above_eq (Nat.zero_le _)⟩

theorem InBounds.exists_locals : ∃ values, frame.locals = .ok values :=
  ⟨_, if_pos ⟨Nat.le_add_right _ _, h.slots⟩⟩

end InBounds

theorem granted_arg (frame : Frame) (index : Nat) : Granted (fun _ => True) (frame.arg index) := by
  unfold arg
  split
  · exact .refused
  · exact .ok trivial

end Frame

inductive Request.InBounds : Request → Prop
  | proceed (next : Nat) {frame : Frame} : frame.InBounds → InBounds (.proceed next frame)
  | print (text : List UInt8) (next : Nat) {frame : Frame} : frame.InBounds →
    InBounds (.print text next frame)
  | time (next : Nat) {frame : Frame} : frame.InBounds → InBounds (.time next frame)
  | call (function next : Nat) {base : Nat} {frame : Frame} : frame.InBounds →
    base ≤ frame.depth → InBounds (.call function base next frame)
  | finish (value : Int64) : InBounds (.finish value)

section Instructions

variable {program : Program} {frame : Frame}

theorem contained_push (h : frame.InBounds) (site : Site) (next : Nat) (value : Int64) :
    Contained Request.InBounds (do
      let frame ← site.grant (frame.push value)
      return .proceed next frame) :=
  ((h.granted_push value).contained site).bind fun _ hpushed => .value (.proceed next hpushed)

theorem Instruction.perform_contained (h : frame.InBounds) (site : Site) (next : Nat)
    (goto : Int64 → Option Nat) (instr : Instruction) :
    Contained Request.InBounds (instr.perform program site next goto frame) := by
  cases instr with
  | nop => exact .value (.proceed next h)
  | pushConstant value => exact contained_push h site next value
  | pushArg arg =>
    refine (Contained.require site _).bind fun index _ => ?_
    refine ((frame.granted_arg index).contained site).bind fun value _ => ?_
    exact contained_push h site next value
  | pushLocal slot =>
    refine (Contained.require site _).bind fun index _ => ?_
    refine ((h.granted_local index).contained site).bind fun value _ => ?_
    exact contained_push h site next value
  | pop => exact (h.granted_pop.contained site).bind fun _ hpopped => .value (.proceed next hpopped)
  | popLocal slot =>
    refine (Contained.require site _).bind fun index _ => ?_
    refine (h.granted_pop.contained site).bind fun popped hpopped => ?_
    refine ((hpopped.granted_setLocal index popped.1).contained site).bind fun _ hset => ?_
    exact .value (.proceed next hset)
  | dup =>
    refine (h.granted_peek.contained site).bind fun value _ => ?_
    exact contained_push h site next value
  | binary op =>
    refine (h.granted_pop.contained site).bind fun right hright => ?_
    refine (hright.granted_pop.contained site).bind fun left hleft => ?_
    cases hvalue : op.apply left.1 right.1 with
    | none =>
      simp only [hvalue]
      exact .fault _
    | some value =>
      simp only [hvalue]
      exact contained_push hleft site next value
  | jump target =>
    exact (Contained.require site _).bind fun place _ => .value (.proceed place h)
  | branch condition target =>
    refine (Contained.require site _).bind fun place _ => ?_
    refine (h.granted_pop.contained site).bind fun right hright => ?_
    exact (hright.granted_pop.contained site).bind fun left hleft => .value (.proceed _ hleft)
  | call function args =>
    refine (Contained.require site _).bind fun function _ => ?_
    refine (Contained.require site _).bind fun args _ => ?_
    split
    · exact .value (.call function next h (Nat.sub_le _ _))
    · exact .fault _
  | ret => exact (h.granted_pop.contained site).bind fun popped _ => .value (.finish popped.1)
  | printString id =>
    simp only [perform]
    cases (Word.toIndex? id).bind program.string? with
    | none => exact .fault _
    | some text => exact .value (.print text next h)
  | printInt64 =>
    exact (h.granted_pop.contained site).bind fun _ hpopped => .value (.print _ next hpopped)
  | currentTime => exact .value (.time next h)
  | halt => exact .halt

/-- The code is the compiled form of its function, if the function is compiled. -/
def Tier.Genuine (program : Program) : Tier → Prop
  | .interpreted _ => True
  | .compiled code => ThreadedCode.translate program code.function = .ok code

theorem Progress.Follows.genuine {execution : Execution} {base : State} {plain : Progress}
    (h : (Progress.running execution).Follows program base plain) :
    execution.active.tier.Genuine program := by
  cases h with
  | running _ htier _ =>
    cases htier with
    | interpreted => trivial
    | compiled htranslate =>
      obtain ⟨rfl, -⟩ := ThreadedCode.aligned_zero htranslate
      exact htranslate

theorem Tier.Genuine.run_contained {tier : Tier} (htier : tier.Genuine program) (h : frame.InBounds)
    (dispatch : Dispatch) (place : Nat) :
    Contained Request.InBounds (tier.run dispatch program place frame) := by
  cases tier with
  | interpreted function =>
    simp only [Tier.run]
    cases hdecode : Instruction.decode function.code place with
    | error error =>
      rw [interpret_of_decode_error ⟨function, place⟩ hdecode]
      exact .fault _
    | ok instr =>
      rw [interpret_eq_perform ⟨function, place⟩ hdecode]
      exact instr.perform_contained h _ _ _
  | compiled code =>
    simp only [Tier.run, ThreadedCode.step]
    cases hop : code.ops[place]? with
    | none => exact .fault _
    | some opAt =>
      obtain ⟨instr, -, htranslate⟩ :=
        ThreadedCode.exists_instr_of_translate htier (Array.mem_of_getElem? hop)
      rw [Site.require_some, ok_bind, ThreadedCode.runOp_eq_perform htranslate]
      exact instr.perform_contained h _ _ _

end Instructions

def Execution.frames (execution : Execution) : List Frame :=
  execution.active.frame :: execution.callers.map (·.frame)

inductive Progress.InBounds : Progress → Prop
  | running {execution : Execution} : (∀ frame ∈ execution.frames, frame.InBounds) →
    InBounds (.running execution)
  | ended {outcome : Outcome} (state : State) : outcome ≠ .error .outOfRange →
    InBounds (.ended outcome state)

namespace Machine

variable {machine : Machine} {state : State} {callers : List Caller}

section Calls

variable (hcallers : ∀ caller ∈ callers, caller.frame.InBounds)
include hcallers

theorem inBounds_running {tier : Tier} {place : Nat} {frame : Frame} (h : frame.InBounds) :
    (Progress.running ⟨state, ⟨tier, place, frame⟩, callers⟩).InBounds := by
  refine .running (List.forall_mem_cons.2 ⟨h, ?_⟩)
  simpa using hcallers

theorem inBounds_enter (tier : Tier) (args : Array Int64) :
    (enter tier args callers state).InBounds :=
  inBounds_running hcallers (Frame.inBounds_enter tier.function args)

theorem inBounds_start (callee : Callee) (args : Array Int64) :
    (machine.start callee args callers state).InBounds := by
  cases callee with
  | interpreted id =>
    simp only [start]
    split
    · exact .ended _ (by simp)
    · exact inBounds_enter hcallers _ args
  | compiled code => exact inBounds_enter hcallers _ args

theorem inBounds_startCall (id : Nat) (args : Array Int64) :
    (machine.startCall id args callers state).InBounds := by
  unfold startCall
  split
  · exact .ended _ (by simp)
  · exact inBounds_start hcallers _ args

theorem inBounds_of_granted {access : Except Denial Frame} (h : Granted Frame.InBounds access)
    (site : Site) (tier : Tier) (next : Nat) :
    (match site.grant access with
      | .error reason => stop reason (callers.length + 1) state
      | .ok frame => Progress.running ⟨state, ⟨tier, next, frame⟩, callers⟩).InBounds := by
  cases h with
  | ok hframe => exact inBounds_running hcallers hframe
  | refused => exact .ended _ (by simp [Site.corrupt])

theorem inBounds_finish (value : Int64) : (finish value callers state).InBounds := by
  cases callers with
  | nil => exact .ended _ (by simp)
  | cons caller callers =>
    have hcaller := hcallers caller List.mem_cons_self
    have hrest := fun other hother => hcallers other (List.mem_cons_of_mem _ hother)
    exact inBounds_of_granted hrest ((hcaller.truncate caller.base).granted_push value) _ _ _

theorem inBounds_serve {tier : Tier} {place : Nat} {request : Request} (h : request.InBounds) :
    (machine.serve tier place callers state request).InBounds := by
  cases h with
  | proceed next hframe => exact inBounds_running hcallers hframe
  | print text next hframe =>
    simp only [serve]
    split
    · exact .ended _ (by simp)
    · exact inBounds_running hcallers hframe
  | time next hframe => exact inBounds_of_granted hcallers (hframe.granted_push _) _ _ _
  | call function next hframe hbase =>
    simp only [serve, hframe.above_eq hbase, Site.grant_ok]
    exact inBounds_startCall (List.forall_mem_cons.2 ⟨hframe, hcallers⟩) function _
  | finish value => exact inBounds_finish hcallers value

end Calls

theorem asked_contained {execution : Execution} (h : (Progress.running execution).InBounds)
    (htier : execution.active.tier.Genuine machine.program) :
    Contained Request.InBounds (machine.asked execution) := by
  cases h with
  | running hframes => exact htier.run_contained (hframes _ List.mem_cons_self) _ _

theorem inBounds_step {execution : Execution} (h : (Progress.running execution).InBounds)
    (htier : execution.active.tier.Genuine machine.program) :
    (machine.step execution).InBounds := by
  have hasked := asked_contained h htier
  cases hresult : machine.asked execution with
  | error reason =>
    rw [hresult] at hasked
    rw [step_of_error hresult]
    exact .ended _ (by simpa using hasked.ne_outOfRange)
  | ok request =>
    rw [hresult] at hasked
    rw [step_of_ok hresult]
    cases h with
    | running hframes =>
      refine inBounds_serve (fun caller hcaller => ?_) hasked.of_ok
      exact hframes _ (List.mem_cons_of_mem _ (List.mem_map_of_mem hcaller))

/-- All frames of a run are in bounds, since every form of a function that it meets is genuine. -/
theorem inBounds_advance {progress plain : Progress} {base : State} (h : progress.InBounds)
    (hfollows : progress.Follows machine.program base plain) (count : Nat) :
    (machine.advance count progress).InBounds := by
  induction count with
  | zero => simpa using h
  | succ count ih =>
    obtain ⟨plainCount, hcount⟩ := exists_plain_advance hfollows count
    cases hprogress : machine.advance count progress with
    | ended outcome state =>
      rw [advance_succ_of_ended hprogress, ← hprogress]
      exact ih
    | running execution =>
      rw [hprogress] at hcount ih
      rw [advance_succ_of_running hprogress]
      exact inBounds_step ih hcount.genuine

end Machine
end TieredVM
