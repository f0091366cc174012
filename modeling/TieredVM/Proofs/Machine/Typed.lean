import TieredVM.Proofs.Machine.Follow
import TieredVM.Proofs.Machine.Frame
import TieredVM.Proofs.Verify.Flow
set_option autoImplicit false

namespace TieredVM

inductive Outcome.Orderly : Outcome → Prop
  | returned (value : Int64) : Orderly (.ok value)
  | halted : Orderly (.error .halt)
  | divisionByZero (function : String) (offset : Nat) :
    Orderly (.error (.fault (.divisionByZero function offset)))
  | output (message : String) : Orderly (.error (.fault (.output message)))

inductive Request.Fits (program : Program) (function : Function) (summary : StackSummary) :
    Request → Prop
  | proceed {next : Nat} {frame : Frame} : frame.Fits function →
    summary.depths[next]? = some frame.depth →
    Fits program function summary (.proceed next frame)
  | print {next : Nat} {frame : Frame} (text : List UInt8) : frame.Fits function →
    summary.depths[next]? = some frame.depth →
    Fits program function summary (.print text next frame)
  | time {next : Nat} {frame : Frame} : frame.Fits function →
    summary.depths[next]? = some (frame.depth + 1) →
    Fits program function summary (.time next frame)
  | call {id base next : Nat} {frame : Frame} {found : Function} : frame.Fits function →
    program.function? id = some found →
    base ≤ frame.depth → frame.depth - base = found.argCount →
    summary.depths[next]? = some (base + 1) →
    Fits program function summary (.call id base next frame)
  | finish (value : Int64) : Fits program function summary (.finish value)

inductive Performs (program : Program) (function : Function) (summary : StackSummary) :
    Except Stop Request → Prop
  | request {request : Request} : request.Fits program function summary →
    Performs program function summary (.ok request)
  | stop {reason : Stop} : Outcome.Orderly (.error reason) →
    Performs program function summary (.error reason)

namespace Function

variable {program : Program} {function : Function} {summary : StackSummary} {offset : Nat}
  {frame : Frame}

theorem Checked.push_performs (hc : function.Checked program summary) {next : Nat}
    (hf : frame.Fits function) (hnext : summary.depths[next]? = some (frame.depth + 1))
    (site : Site) (value : Int64) :
    Performs program function summary (do
      let frame ← site.grant (frame.push value)
      return .proceed next frame) := by
  have hle := hc.depth_le hnext
  obtain ⟨pushed, hpush, hfits, hdepth⟩ := hf.exists_push value hle
  simp only [hpush, Site.grant_ok, ok_bind, pure_eq_ok]
  exact .request (.proceed hfits (hdepth ▸ hnext))

theorem Allows.performs {instr : Instruction} (hc : function.Checked program summary)
    (h : function.Allows program summary offset frame.depth instr) (hf : frame.Fits function) :
    Performs program function summary
      (instr.perform program ⟨function, offset⟩ (offset + instr.encodedLength) Word.toIndex?
        frame) := by
  have hpopped := h.popped
  have hflows := h.flows
  cases instr with
  | nop => exact .request (.proceed hf (hflows rfl))
  | pushConstant value => exact hc.push_performs hf (hflows rfl) _ value
  | pushArg arg =>
    obtain ⟨n, hn, hlt⟩ := h.args arg rfl
    obtain ⟨value, hvalue⟩ := hf.exists_arg hlt
    simp only [Instruction.perform, hn, hvalue, Site.require_some, Site.grant_ok, ok_bind]
    exact hc.push_performs hf (hflows rfl) _ value
  | pushLocal slot =>
    obtain ⟨n, hn, hlt⟩ := h.locals slot rfl
    obtain ⟨value, hvalue⟩ := hf.exists_local hlt
    simp only [Instruction.perform, hn, hvalue, Site.require_some, Site.grant_ok, ok_bind]
    exact hc.push_performs hf (hflows rfl) _ value
  | pop =>
    obtain ⟨value, popped, hpop, hfits, hdepth⟩ := hf.exists_pop hpopped
    simp only [Instruction.perform, hpop, Site.grant_ok, ok_bind, pure_eq_ok]
    exact .request (.proceed hfits (hdepth ▸ hflows rfl))
  | popLocal slot =>
    obtain ⟨n, hn, hlt⟩ := h.locals slot rfl
    obtain ⟨value, popped, hpop, hfits, hdepth⟩ := hf.exists_pop hpopped
    obtain ⟨set, hset, hfits, hsame⟩ := hfits.exists_setLocal value hlt
    simp only [Instruction.perform, hn, hpop, hset, Site.require_some, Site.grant_ok, ok_bind,
      pure_eq_ok]
    exact .request (.proceed hfits ((hsame.trans hdepth) ▸ hflows rfl))
  | dup =>
    obtain ⟨value, hpeek⟩ := hf.exists_peek hpopped
    have hafter : Instruction.dup.after frame.depth = frame.depth + 1 := by
      simp only [Instruction.after, Instruction.pops, Instruction.pushes] at *
      omega
    simp only [Instruction.perform, hpeek, Site.grant_ok, ok_bind]
    exact hc.push_performs hf (hafter ▸ hflows rfl) _ value
  | binary op =>
    obtain ⟨right, first, left, second, hright, hleft, hfits, hdepth⟩ := hf.exists_pop_pop hpopped
    simp only [Instruction.perform, hright, hleft, Site.grant_ok, ok_bind]
    cases op.apply left right with
    | none => exact .stop (.divisionByZero _ _)
    | some value =>
      refine hc.push_performs hfits ?_ _ value
      rw [hdepth]
      exact hflows (by cases op <;> rfl)
  | jump target =>
    obtain ⟨place, hplace, hdepth⟩ := h.jumps target rfl
    simp only [Instruction.perform, hplace, Site.require_some, ok_bind, pure_eq_ok]
    exact .request (.proceed hf hdepth)
  | branch condition target =>
    obtain ⟨place, hplace, hjump⟩ := h.jumps target rfl
    obtain ⟨right, first, left, second, hright, hleft, hfits, hdepth⟩ := hf.exists_pop_pop hpopped
    simp only [Instruction.perform, hplace, hright, hleft, Site.require_some, Site.grant_ok,
      ok_bind, pure_eq_ok]
    refine .request (.proceed hfits ?_)
    rw [hdepth]
    split
    · exact hjump
    · exact hflows (by cases condition <;> rfl)
  | call callee args =>
    obtain ⟨n, found, hn, hfound, hargs⟩ := h.calls callee args rfl
    have hcount : args.toInt.toNat = found.argCount := (Word.nonneg_of_toIndex? hargs).2
    have hle : found.argCount ≤ frame.depth := hcount ▸ hpopped
    simp only [Instruction.perform, hn, hargs, Site.require_some, ok_bind, if_pos hle, pure_eq_ok]
    refine .request (.call hf hfound (Nat.sub_le _ _) (Nat.sub_sub_self hle) ?_)
    rw [← hcount]
    exact hflows rfl
  | ret =>
    obtain ⟨value, popped, hpop, -⟩ := hf.exists_pop hpopped
    simp only [Instruction.perform, hpop, Site.grant_ok, ok_bind, pure_eq_ok]
    exact .request (.finish value)
  | printString id =>
    obtain ⟨text, htext⟩ := h.strings id rfl
    simp only [Instruction.perform, htext]
    exact .request (.print text hf (hflows rfl))
  | printInt64 =>
    obtain ⟨value, popped, hpop, hfits, hdepth⟩ := hf.exists_pop hpopped
    simp only [Instruction.perform, hpop, Site.grant_ok, ok_bind, pure_eq_ok]
    exact .request (.print _ hfits (hdepth ▸ hflows rfl))
  | currentTime => exact .request (.time hf (hflows rfl))
  | halt => exact .stop .halted

end Function

/-- A record of an instruction that stands where its offset says, at the depth that the walk has
found there. -/
def TraceRecord.Verified (program : Program) (record : TraceRecord) : Prop :=
  ∃ function summary, program.function? record.function = some function ∧
    record.name = function.name ∧ simulate function.code = .ok summary ∧
    summary.depths[record.offset]? = some record.depth ∧
    function.code[record.offset]?.bind Opcode.ofByte? = some record.opcode ∧
    record.depth ≤ function.maxStackDepth

structure State.Verified (program : Program) (state : State) : Prop where
  bare : state.tiers = (State.initial program).tiers
  records : ∀ record ∈ Event.traceOf state.journal.toList, record.Verified program

/-- A call of a checked function at an instruction for which its frame has the right depth. -/
structure Activation.Typed (program : Program) (active : Activation) (function : Function)
    (summary : StackSummary) : Prop where
  tier : active.tier = .interpreted function
  listed : program.function? function.id = some function
  checked : function.Checked program summary
  frame : active.frame.Fits function
  depth : summary.depths[active.place]? = some active.frame.depth

structure Caller.Typed (program : Program) (caller : Caller) (function : Function)
    (summary : StackSummary) : Prop where
  tier : caller.tier = .interpreted function
  listed : program.function? function.id = some function
  checked : function.Checked program summary
  frame : caller.frame.Fits function
  base_le : caller.base ≤ caller.frame.depth
  depth : summary.depths[caller.next]? = some (caller.base + 1)

inductive Progress.Typed (program : Program) : Progress → Prop
  | running {state : State} {active : Activation} {callers : List Caller} :
    state.Verified program →
    (∃ function summary, active.Typed program function summary) →
    (∀ caller ∈ callers, ∃ function summary, caller.Typed program function summary) →
    Typed program (.running ⟨state, active, callers⟩)
  | ended {outcome : Outcome} {state : State} :
    state.Verified program → outcome.Orderly → Typed program (.ended outcome state)

namespace State.Verified

variable {program : Program} {state : State}

theorem of_bare (state : State) : (state.bare program).Verified program :=
  ⟨rfl, fun _ hrecord => by cases hrecord⟩

theorem record (h : state.Verified program) {event : Event}
    (hevent : ∀ record ∈ Event.traceOf [event], record.Verified program) :
    (state.record event).Verified program := by
  refine ⟨h.bare, fun record hrecord => ?_⟩
  simp only [State.record, Array.toList_push, Event.traceOf_append, List.mem_append] at hrecord
  rcases hrecord with hrecord | hrecord
  · exact h.records record hrecord
  · exact hevent record hrecord

theorem leave (h : state.Verified program) : state.leave.Verified program := by
  unfold State.leave
  split
  · exact h
  · split
    · exact ⟨h.bare, h.records⟩
    · exact ⟨h.bare, h.records⟩

theorem unwind (h : state.Verified program) (count : Nat) :
    (state.unwind count).Verified program := by
  induction count generalizing state with
  | zero => exact h
  | succ count ih => exact ih h.leave

end State.Verified

namespace Machine

variable {machine : Machine} {state : State} {callers : List Caller} {function : Function}
  {summary : StackSummary}

theorem typed_stop {reason : Stop} (calls : Nat) (h : state.Verified machine.program)
    (hreason : Outcome.Orderly (.error reason)) :
    (stop reason calls state).Typed machine.program :=
  .ended (h.unwind calls) hreason

section Calls

variable (hcallers : ∀ caller ∈ callers, ∃ function summary,
  caller.Typed machine.program function summary)
include hcallers

theorem typed_startCall (haccepted : machine.program.Accepted) {id : Nat} {args : Array Int64}
    (h : state.Verified machine.program)
    (hfunction : machine.program.function? id = some function)
    (hargs : args.size = function.argCount) :
    (machine.plain.startCall id args callers state).Typed machine.program := by
  obtain ⟨rfl, summary, hchecked⟩ := haccepted.checked hfunction
  have hplain : machine.plain.program.function? function.id = some function := hfunction
  simp only [startCall, plain_resolve h.bare hfunction, start, hplain, enter]
  refine .running ⟨h.bare, h.records⟩ ⟨function, summary, rfl, hfunction, hchecked, ?_, ?_⟩ hcallers
  · exact Frame.fits_enter hargs
  · exact hchecked.first

theorem typed_finish (value : Int64) (h : state.Verified machine.program) :
    (finish value callers state).Typed machine.program := by
  cases callers with
  | nil => exact .ended h.leave (.returned value)
  | cons caller callers =>
    obtain ⟨function, summary, hcaller⟩ := hcallers caller List.mem_cons_self
    have hdepth : (caller.frame.truncate caller.base).depth = caller.base :=
      Nat.min_eq_right hcaller.base_le
    -- The depth on record where the caller goes on counts the result.
    have hroom := hcaller.checked.depth_le hcaller.depth
    obtain ⟨next, hpush, hfits, hnext⟩ :=
      (hcaller.frame.truncate caller.base).exists_push value (by omega)
    simp only [finish, resume, hpush, Site.grant_ok]
    refine .running h.leave ⟨function, summary, hcaller.tier, hcaller.listed, hcaller.checked,
      hfits, ?_⟩ fun other hother => hcallers other (List.mem_cons_of_mem _ hother)
    rw [hnext, hdepth]
    exact hcaller.depth

theorem typed_serve (haccepted : machine.program.Accepted) {place : Nat} {request : Request}
    (h : state.Verified machine.program)
    (hfunction : machine.program.function? function.id = some function)
    (hchecked : function.Checked machine.program summary)
    (hrequest : request.Fits machine.program function summary) :
    (machine.plain.serve (.interpreted function) place callers state request).Typed
      machine.program := by
  cases hrequest with
  | proceed hfits hdepth =>
    exact .running h ⟨function, summary, rfl, hfunction, hchecked, hfits, hdepth⟩ hcallers
  | print text hfits hdepth =>
    have hgiven : state.given.Verified machine.program := ⟨h.bare, h.records⟩
    simp only [serve]
    split
    · rename_i hprint
      obtain ⟨-, rfl⟩ := State.print_eq_some hprint
      exact typed_stop _ hgiven (.output _)
    · rename_i hprint
      obtain ⟨-, rfl⟩ := State.print_eq_none hprint
      refine .running (hgiven.record ?_)
        ⟨function, summary, rfl, hfunction, hchecked, hfits, hdepth⟩ hcallers
      intro record hrecord
      cases hrecord
  | @time next frame hfits hdepth =>
    obtain ⟨pushed, hpush, hpushed, hnext⟩ :=
      hfits.exists_push state.time.1 (hchecked.depth_le hdepth)
    simp only [serve, hpush, Site.grant_ok]
    exact .running ⟨h.bare, h.records⟩
      ⟨function, summary, rfl, hfunction, hchecked, hpushed, hnext ▸ hdepth⟩ hcallers
  | call hfits hfound hbase hargs hdepth =>
    obtain ⟨values, habove, hsize⟩ := hfits.exists_above hbase
    simp only [serve, habove, Site.grant_ok]
    refine typed_startCall (fun caller hcaller => ?_) haccepted h hfound (hsize.trans hargs)
    rcases List.mem_cons.1 hcaller with rfl | hcaller
    · exact ⟨function, summary, rfl, hfunction, hchecked, hfits, hbase, hdepth⟩
    · exact hcallers caller hcaller
  | finish value => exact typed_finish hcallers value h

end Calls

theorem verified_observe {place depth : Nat} (h : state.Verified machine.program)
    (hfunction : machine.program.function? function.id = some function)
    (hchecked : function.Checked machine.program summary)
    (hdepth : summary.depths[place]? = some depth) :
    (machine.plain.observe state (.interpreted function) place depth).Verified machine.program := by
  unfold observe
  split
  · split
    · exact h
    · rename_i opcode hopcode
      refine h.record fun record hrecord => ?_
      cases List.mem_singleton.1 hrecord
      exact ⟨function, summary, hfunction, rfl, hchecked.simulated, hdepth, hopcode,
        hchecked.depth_le hdepth⟩
  · exact h

theorem typed_step (haccepted : machine.program.Accepted) {execution : Execution}
    (h : (Progress.running execution).Typed machine.program) :
    (machine.plain.step execution).Typed machine.program := by
  cases h with
  | @running state active callers hstate hactive hcallers =>
    obtain ⟨function, summary, htyped⟩ := hactive
    obtain ⟨tier, place, frame⟩ := active
    obtain ⟨rfl, hfunction, hchecked, hfits, hdepth⟩ := htyped
    have hobserve := verified_observe hstate hfunction hchecked hdepth
    obtain ⟨instr, hallows⟩ := hchecked.allows hdepth
    have hrun : (Tier.interpreted function).run machine.plain.config.dispatch
        machine.plain.program place frame = instr.perform machine.program ⟨function, place⟩
          (place + instr.encodedLength) Word.toIndex? frame :=
      interpret_eq_perform ⟨function, place⟩ hallows.decoded
    have hperforms := hallows.performs hchecked hfits
    rw [← hrun] at hperforms
    simp only [step]
    generalize (Tier.interpreted function).run machine.plain.config.dispatch
      machine.plain.program place frame = result at *
    cases hperforms with
    | request hrequest =>
      exact typed_serve hcallers haccepted hobserve hfunction hchecked hrequest
    | stop hreason => exact typed_stop _ hobserve hreason

theorem typed_advance (haccepted : machine.program.Accepted) {progress : Progress}
    (h : progress.Typed machine.program) (count : Nat) :
    (machine.plain.advance count progress).Typed machine.program := by
  induction count generalizing progress with
  | zero => simpa using h
  | succ count ih =>
    cases progress with
    | ended outcome state => exact h
    | running execution => exact ih (typed_step haccepted h)

end Machine
end TieredVM
