import Mathlib.Data.List.Forall2
import TieredVM.Proofs.Machine.Alignment
import TieredVM.Proofs.Machine.Resolve
import TieredVM.Proofs.Machine.Run
/-!
Running a program on any machine and on a plain one that only interprets. The machine keeps up with
the plain one: what it compiles does the same as the code it comes from, and wherever the plain
machine runs a no-op that compiled code has lost, the machine waits.
-/
set_option autoImplicit false

namespace TieredVM

inductive Tier.Follows (program : Program) : Tier → Nat → Function → Nat → Prop
  | interpreted (function : Function) (place : Nat) :
    Follows program (.interpreted function) place function place
  | compiled {function : Function} {code : ThreadedCode} {place offset : Nat} :
    ThreadedCode.translate program function = .ok code →
    ThreadedCode.Aligned program code place offset →
    Follows program (.compiled code) place function offset

inductive Caller.Follows (program : Program) : Caller → Caller → Prop
  | intro {tier : Tier} {function : Function} {place offset next after base : Nat} {frame : Frame} :
    tier.site place = ⟨function, offset⟩ →
    tier.Follows program next function after →
    Follows program ⟨tier, place, next, base, frame⟩
      ⟨.interpreted function, offset, after, base, frame⟩

/-- A run from the state `base` on and its plain counterpart. -/
inductive Progress.Follows (program : Program) (base : State) : Progress → Progress → Prop
  | running {state echo : State} {tier : Tier} {function : Function} {place offset : Nat}
    {frame : Frame} {callers echoes : List Caller} :
    state.Echoes program base echo →
    tier.Follows program place function offset →
    List.Forall₂ (Caller.Follows program) callers echoes →
    Follows program base (.running ⟨state, ⟨tier, place, frame⟩, callers⟩)
      (.running ⟨echo, ⟨.interpreted function, offset, frame⟩, echoes⟩)
  | ended {outcome : Outcome} {state echo : State} :
    state.Echoes program base echo →
    Follows program base (.ended outcome state) (.ended outcome echo)

theorem Progress.Follows.of_ended {program : Program} {base state : State} {outcome : Outcome}
    {plain : Progress} (h : (Progress.ended outcome state).Follows program base plain) :
    ∃ echo, plain = .ended outcome echo ∧ state.Echoes program base echo := by
  cases h with
  | ended hstate => exact ⟨_, rfl, hstate⟩

theorem Progress.Follows.of_plain_ended {program : Program} {base echo : State}
    {outcome : Outcome} {progress : Progress}
    (h : progress.Follows program base (.ended outcome echo)) :
    ∃ state, progress = .ended outcome state ∧ state.Echoes program base echo := by
  cases h with
  | ended hstate => exact ⟨_, rfl, hstate⟩

theorem Progress.Follows.echoes {program : Program} {base : State} {progress plain : Progress}
    (h : progress.Follows program base plain) :
    progress.state.Echoes program base plain.state := by
  cases h with
  | running hstate => exact hstate
  | ended hstate => exact hstate

namespace Tier

variable {program : Program} {tier : Tier} {function : Function} {place offset : Nat}

@[simp] theorem site_interpreted (function : Function) (place : Nat) :
    (Tier.interpreted function).site place = ⟨function, place⟩ := rfl

/-- Where the code holds an instruction that is not skipped, both forms of the function do the same
at the same site. -/
structure Agrees (program : Program) (tier : Tier) (place : Nat) (function : Function)
    (offset : Nat) : Prop where
  site : tier.site place = ⟨function, offset⟩
  opcode : tier.opcode? place = (Tier.interpreted function).opcode? offset
  run : ∀ dispatch plain frame,
    Served (fun n p => tier.Follows program n function p)
      (tier.run dispatch program place frame)
      ((Tier.interpreted function).run plain program offset frame)

theorem agrees_interpreted (program : Program) (function : Function) (place : Nat) :
    Agrees program (.interpreted function) place function place where
  site := rfl
  opcode := rfl
  run dispatch plain frame := by
    simp only [Tier.run, interpret_dispatch dispatch plain]
    cases interpret plain program ⟨function, place⟩ frame with
    | error reason => exact .stop reason
    | ok request => exact .request (.refl (.interpreted function) request)

theorem Follows.agrees_or_skips (h : tier.Follows program place function offset) :
    tier.Agrees program place function offset ∨
      Instruction.decode function.code offset = .ok .nop ∧
        tier.Follows program place function (offset + 1) := by
  cases h with
  | interpreted => exact .inl (agrees_interpreted program function place)
  | compiled htranslate haligned =>
    rename_i code
    obtain ⟨rfl, -⟩ := ThreadedCode.aligned_zero htranslate
    cases haligned.standing with
    -- Compiled code runs off its end where the code ends, and reports the same offset.
    | finished hoffset hplace hsize =>
      refine .inl ⟨?_, ?_, fun dispatch plain frame => ?_⟩
      · simp [Tier.site, Tier.function, Tier.offset, ThreadedCode.offset, hplace, hsize]
      · simp [Tier.opcode?, hplace, hoffset]
      · have hcompiled : Tier.run (.compiled code) dispatch program place frame =
            .error (Site.corrupt ⟨code.function, offset⟩) := by
          simp [Tier.run, ThreadedCode.step, ThreadedCode.site, ThreadedCode.offset, hplace,
            Site.require, hsize]
        have hplain : Tier.run (.interpreted code.function) plain program offset frame =
            .error (Site.corrupt ⟨code.function, offset⟩) :=
          interpret_of_getElem?_eq_none ⟨code.function, offset⟩ hoffset
        rw [hcompiled, hplain]
        exact .stop _
    | skipped hdecode hnext => exact .inr ⟨hdecode, .compiled htranslate hnext⟩
    | operation instr op hnop hdecode hplace hop hnext =>
      have hsite : code.site place = ⟨code.function, offset⟩ := by
        simp [ThreadedCode.site, ThreadedCode.offset, hplace]
      refine .inl ⟨hsite, ?_, fun dispatch plain frame => ?_⟩
      · simp [Tier.opcode?, hplace]
      · have hcompiled : Tier.run (.compiled code) dispatch program place frame =
            instr.perform program ⟨code.function, offset⟩ (place + 1)
              (ThreadedCode.goto? (Listing.ofCode code.function.code).items) frame := by
          simp only [Tier.run, ThreadedCode.step, hsite, hplace, Site.require, ok_bind]
          exact ThreadedCode.runOp_eq_perform hop _ _ _
        have hplain : Tier.run (.interpreted code.function) plain program offset frame =
            instr.perform program ⟨code.function, offset⟩ (offset + instr.encodedLength)
              Word.toIndex? frame :=
          interpret_eq_perform ⟨code.function, offset⟩ hdecode
        rw [hcompiled, hplain]
        refine Instruction.perform_served (.compiled htranslate hnext) ?_ frame
        intro target htarget
        obtain ⟨n, hn⟩ := ThreadedCode.goto?_of_translateInstr hop htarget
        obtain ⟨p, hp, haligned⟩ := ThreadedCode.Aligned.goto htranslate hn
        exact ⟨n, p, hn, hp, .compiled htranslate haligned⟩

end Tier

namespace Machine

variable {machine : Machine} {base state echo : State} {callers echoes : List Caller}

theorem follows_stop (reason : Stop) (calls : Nat) (h : state.Echoes machine.program base echo) :
    (stop reason calls state).Follows machine.program base (stop reason calls echo) :=
  .ended (h.unwind calls)

section Calls

variable (hcallers : List.Forall₂ (Caller.Follows machine.program) callers echoes)
include hcallers

theorem follows_enter {tier : Tier} {function : Function} (args : Array Int64)
    (h : state.Echoes machine.program base echo) (htier : tier.function = function)
    (hzero : tier.Follows machine.program 0 function 0) :
    (enter tier args callers state).Follows machine.program base
      (enter (.interpreted function) args echoes echo) := by
  subst htier
  exact .running (h.enter tier.function args) hzero hcallers

theorem follows_start {id : Nat} {callee : Callee} {function : Function} (args : Array Int64)
    (h : state.Echoes machine.program base echo)
    (hfunction : machine.program.function? id = some function)
    (hruns : callee.Runs machine.program id function) :
    (machine.start callee args callers state).Follows machine.program base
      (machine.plain.start (.interpreted id) args echoes echo) := by
  have hplain : machine.plain.start (.interpreted id) args echoes echo =
      enter (.interpreted function) args echoes echo := by
    simp [start, plain, hfunction]
  rw [hplain]
  cases hruns with
  | interpreted =>
    simp only [start, hfunction]
    exact follows_enter hcallers args h rfl (.interpreted function 0)
  | compiled htranslate =>
    obtain ⟨hcode, haligned⟩ := ThreadedCode.aligned_zero htranslate
    refine follows_enter hcallers args ?_ hcode (.compiled htranslate haligned)
    split
    · exact h.record_left (by rfl) (by rfl)
    · exact h

theorem follows_startCall (id : Nat) (args : Array Int64)
    (h : state.Echoes machine.program base echo) :
    (machine.startCall id args callers state).Follows machine.program base
      (machine.plain.startCall id args echoes echo) := by
  have hlength := hcallers.length_eq
  unfold startCall
  cases hfunction : machine.program.function? id with
  | none =>
    have hplain : machine.plain.resolve id echo = none := by
      refine resolve_eq_none ?_ hfunction
      rw [h.bare]
      exact machine.program.tiers_initial.size
    rw [resolve_eq_none h.tiers.size hfunction, hplain, ← hlength]
    exact follows_stop _ _ h
  | some function =>
    obtain ⟨callee, next, hresolve, hnext, hruns⟩ := resolve_echoes h hfunction
    rw [hresolve, plain_resolve h.bare hfunction]
    exact follows_start hcallers args hnext hfunction hruns

theorem follows_finish (value : Int64) (h : state.Echoes machine.program base echo) :
    (finish value callers state).Follows machine.program base (finish value echoes echo) := by
  cases hcallers with
  | nil => exact .ended h.leave
  | cons hcaller hrest =>
    cases hcaller with
    | intro hsite hnext =>
      rename_i frame
      have hlength := hrest.length_eq
      simp only [finish, resume, hsite, Tier.site_interpreted, hlength]
      cases Site.grant _ ((frame.truncate _).push value) with
      | error reason => exact follows_stop _ _ h.leave
      | ok frame => exact .running h.leave hnext hrest

theorem follows_serve {tier : Tier} {function : Function} {place offset : Nat}
    {first second : Request} (h : state.Echoes machine.program base echo)
    (hsite : tier.site place = ⟨function, offset⟩)
    (hrequest : first.Matches (fun n p => tier.Follows machine.program n function p) second) :
    (machine.serve tier place callers state first).Follows machine.program base
      (machine.plain.serve (.interpreted function) offset echoes echo second) := by
  have hlength := hcallers.length_eq
  cases hrequest with
  | proceed frame hnext => exact .running h hnext hcallers
  | print text frame hnext =>
    obtain ⟨hanswer, hprint⟩ := h.print text
    simp only [serve, hlength]
    generalize state.print text = printed at hanswer hprint ⊢
    generalize echo.print text = printed' at hanswer hprint ⊢
    obtain ⟨answer, state⟩ := printed
    obtain ⟨answer', echo⟩ := printed'
    obtain rfl : answer = answer' := hanswer
    cases answer with
    | some message => exact follows_stop _ _ hprint
    | none => exact .running hprint hnext hcallers
  | time frame hnext =>
    obtain ⟨htime, hafter⟩ := h.time
    simp only [serve, hsite, Tier.site_interpreted, htime, hlength]
    cases Site.grant _ (frame.push echo.time.1) with
    | error reason => exact follows_stop _ _ hafter
    | ok frame => exact .running hafter hnext hcallers
  | call id kept frame hnext =>
    simp only [serve, hsite, Tier.site_interpreted, hlength]
    cases Site.grant _ (frame.above kept) with
    | error reason => exact follows_stop _ _ h
    | ok args => exact follows_startCall (.cons (.intro hsite hnext) hcallers) id args h
  | finish value => exact follows_finish hcallers value h

end Calls

theorem follows_startWithArgs (id : Nat) (args : Array Int64)
    (h : state.Echoes machine.program base echo) :
    (machine.startWithArgs id args state).Follows machine.program base
      (machine.plain.startWithArgs id args echo) := by
  unfold startWithArgs
  cases hfunction : machine.program.function? id with
  | none =>
    have hplain : machine.plain.program.function? id = none := hfunction
    simp only [hplain]
    exact .ended h
  | some function =>
    have hplain : machine.plain.program.function? id = some function := hfunction
    simp only [hplain]
    split
    · exact follows_startCall .nil id args h
    · exact .ended h

theorem observe_echoes {tier : Tier} {function : Function} {place offset : Nat} (depth : Nat)
    (h : state.Echoes machine.program base echo)
    (hagrees : tier.Agrees machine.program place function offset) :
    (machine.observe state tier place depth).Echoes machine.program base
      (machine.plain.observe echo (.interpreted function) offset depth) := by
  have hfunction : tier.function = function := congrArg Site.function hagrees.site
  have hoffset : tier.offset place = offset := congrArg Site.offset hagrees.site
  unfold observe
  rw [hfunction, hoffset, hagrees.opcode, h.chain]
  cases htrace : machine.config.trace with
  | false => simpa [plain, htrace] using h
  | true =>
    cases hopcode : (Tier.interpreted function).opcode? offset with
    | none => simpa [plain, htrace] using h
    | some opcode =>
      simp only [plain, htrace]
      exact h.record _

theorem plain_step_nop {function : Function} {offset : Nat} (frame : Frame) (echoes : List Caller)
    (hdecode : Instruction.decode function.code offset = .ok .nop)
    (h : state.Echoes machine.program base echo) :
    ∃ next, machine.plain.step ⟨echo, ⟨.interpreted function, offset, frame⟩, echoes⟩ =
        .running ⟨next, ⟨.interpreted function, offset + 1, frame⟩, echoes⟩ ∧
      state.Echoes machine.program base next := by
  have hopcode : (Tier.interpreted function).opcode? offset = some .nop :=
    Instruction.opcode_of_decode hdecode
  have hrun : (Tier.interpreted function).run machine.plain.config.dispatch machine.plain.program
      offset frame = .ok (.proceed (offset + 1) frame) :=
    interpret_eq_perform ⟨function, offset⟩ hdecode
  refine ⟨machine.plain.observe echo (.interpreted function) offset frame.depth, ?_, ?_⟩
  · simp only [step, hrun, serve]
  · simp only [observe, hopcode]
    split
    · exact h.record_nop rfl
    · exact h

/-- Either the machine keeps up with the plain one, or that one passes a no-op while the machine
waits. -/
theorem follows_step {tier : Tier} {function : Function} {place offset : Nat} (frame : Frame)
    (h : state.Echoes machine.program base echo)
    (htier : tier.Follows machine.program place function offset)
    (hcallers : List.Forall₂ (Caller.Follows machine.program) callers echoes) :
    (machine.step ⟨state, ⟨tier, place, frame⟩, callers⟩).Follows machine.program base
        (machine.plain.step ⟨echo, ⟨.interpreted function, offset, frame⟩, echoes⟩) ∨
      Instruction.decode function.code offset = .ok .nop ∧
        ∃ next, machine.plain.step ⟨echo, ⟨.interpreted function, offset, frame⟩, echoes⟩ =
            .running ⟨next, ⟨.interpreted function, offset + 1, frame⟩, echoes⟩ ∧
          state.Echoes machine.program base next ∧
          tier.Follows machine.program place function (offset + 1) := by
  rcases htier.agrees_or_skips with hagrees | ⟨hdecode, hnext⟩
  · left
    have hobserve := observe_echoes frame.depth h hagrees
    have hlength := hcallers.length_eq
    have hserved : Served (fun n p => tier.Follows machine.program n function p)
        (tier.run machine.config.dispatch machine.program place frame)
        ((Tier.interpreted function).run machine.plain.config.dispatch machine.plain.program
          offset frame) :=
      hagrees.run _ _ frame
    simp only [step]
    generalize tier.run machine.config.dispatch machine.program place frame = first at *
    generalize (Tier.interpreted function).run machine.plain.config.dispatch
      machine.plain.program offset frame = second at *
    cases hserved with
    | stop reason =>
      simp only [hlength]
      exact follows_stop _ _ hobserve
    | request hrequest => exact follows_serve hcallers hobserve hagrees.site hrequest
  · right
    obtain ⟨next, hstep, hechoes⟩ := plain_step_nop frame echoes hdecode h
    exact ⟨hdecode, next, hstep, hechoes, hnext⟩

theorem exists_advance_step {tier : Tier} {function : Function} {place offset : Nat}
    (frame : Frame) (h : state.Echoes machine.program base echo)
    (htier : tier.Follows machine.program place function offset)
    (hcallers : List.Forall₂ (Caller.Follows machine.program) callers echoes) :
    ∃ count, (machine.step ⟨state, ⟨tier, place, frame⟩, callers⟩).Follows machine.program base
      (machine.plain.advance count
        (.running ⟨echo, ⟨.interpreted function, offset, frame⟩, echoes⟩)) := by
  -- Each no-op leaves less code ahead of the plain machine, so it cannot pass no-ops for ever.
  generalize hrest : function.code.size - offset = rest
  induction rest using Nat.strongRecOn generalizing echo offset with
  | _ rest ih =>
    rcases follows_step frame h htier hcallers with hstep | ⟨hdecode, next, hstep, hnext, hlater⟩
    · exact ⟨1, by simpa [advance] using hstep⟩
    · have hle := Instruction.offset_add_le_of_decode hdecode
      have hpos := Instruction.encodedLength_pos .nop
      obtain ⟨count, hcount⟩ := ih (function.code.size - (offset + 1)) (by omega) hnext hlater rfl
      refine ⟨count + 1, ?_⟩
      rw [advance, hstep]
      exact hcount

theorem exists_plain_advance {progress plain : Progress}
    (h : progress.Follows machine.program base plain) (count : Nat) :
    ∃ plainCount, (machine.advance count progress).Follows machine.program base
      (machine.plain.advance plainCount plain) := by
  induction count generalizing progress plain with
  | zero => exact ⟨0, by simpa using h⟩
  | succ count ih =>
    cases h with
    | ended hstate => exact ⟨0, by simpa using .ended hstate⟩
    | @running _ _ _ _ _ _ frame _ _ hstate htier hcallers =>
      obtain ⟨first, hfirst⟩ := exists_advance_step frame hstate htier hcallers
      obtain ⟨second, hsecond⟩ := ih hfirst
      refine ⟨first + second, ?_⟩
      rw [advance_add first second]
      exact hsecond

theorem exists_advance {progress plain : Progress}
    (h : progress.Follows machine.program base plain) (plainCount : Nat) :
    ∃ count, (machine.advance count progress).Follows machine.program base
      (machine.plain.advance plainCount plain) := by
  induction plainCount generalizing progress plain with
  | zero => exact ⟨0, by simpa using h⟩
  | succ plainCount ih =>
    cases h with
    | ended hstate => exact ⟨0, by simpa using .ended hstate⟩
    | @running _ _ _ _ _ _ frame _ _ hstate htier hcallers =>
      rcases follows_step frame hstate htier hcallers with
        hstep | ⟨-, next, hstep, hnext, hlater⟩
      · obtain ⟨count, hcount⟩ := ih hstep
        exact ⟨count + 1, hcount⟩
      -- The machine waits, and stands for the plain run one step further on.
      · obtain ⟨count, hcount⟩ := ih (.running hnext hlater hcallers)
        refine ⟨count, ?_⟩
        rw [advance, hstep]
        exact hcount

theorem exists_runWithArgs {id count : Nat} {args : Array Int64} {outcome : Outcome}
    (htiers : machine.program.Tiers state.tiers)
    (h : machine.plain.advance count
      (machine.plain.startWithArgs id args (state.bare machine.program)) = .ended outcome echo) :
    ∃ fuel final, machine.runWithArgs fuel id args state = some (outcome, final) := by
  have hfollows := follows_startWithArgs id args (State.echoes_bare htiers)
  obtain ⟨fuel, hfuel⟩ := exists_advance hfollows count
  rw [h] at hfuel
  obtain ⟨final, hfinal, -⟩ := hfuel.of_plain_ended
  exact ⟨fuel, final, run_eq_some_iff.2 hfinal⟩

end Machine
end TieredVM
