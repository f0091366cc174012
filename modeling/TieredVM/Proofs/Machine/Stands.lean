import TieredVM.Proofs.Machine.Contents
import TieredVM.Proofs.Machine.Moves
import TieredVM.Proofs.Machine.Run
set_option autoImplicit false

namespace TieredVM

def Function.Carries (function : Function) (offset : Nat) (instrs : List Instruction) : Prop :=
  instrs.flatMap Instruction.encode <+: function.code.toList.drop offset

theorem Function.carries_append_iff {function : Function} {offset : Nat}
    {instrs later : List Instruction} : function.Carries offset (instrs ++ later) ↔
      function.Carries offset instrs ∧
        function.Carries (offset + (instrs.flatMap Instruction.encode).length) later := by
  rw [Carries, List.flatMap_append]
  exact append_prefix_drop_iff _ _ _ _

theorem Function.carries_singleton_iff {function : Function} {offset : Nat}
    {instr : Instruction} : function.Carries offset [instr] ↔
      Instruction.decode function.code offset = .ok instr := by
  rw [Carries, List.flatMap_singleton, Instruction.decode_eq_ok_iff]

/-- The run stands at an offset of a function, with values on the operand stack and in the locals,
and nothing has been counted or compiled. -/
inductive Progress.Stands (program : Program) (function : Function) (args : Array Int64)
    (callers : List Caller) (offset : Nat) (stack locals : List Int64) : Progress → Prop
  | intro {state : State} {frame : Frame} :
    state.tiers = (State.initial program).tiers → frame.Holds function args stack locals →
    Stands program function args callers offset stack locals
      (.running ⟨state, ⟨.interpreted function, offset, frame⟩, callers⟩)

theorem State.tiers_leave (state : State) : state.leave.tiers = state.tiers := by
  unfold leave
  split
  · rfl
  · split <;> rfl

namespace Machine

variable {machine : Machine} {function : Function} {args : Array Int64} {callers : List Caller}
  {offset : Nat} {stack kept locals : List Int64} {progress : Progress}

theorem stands_startCall {id : Nat} {state : State}
    (htiers : state.tiers = (State.initial machine.program).tiers)
    (hfunction : machine.program.function? id = some function) (args : Array Int64)
    (callers : List Caller) :
    (machine.plain.startCall id args callers state).Stands machine.program function args callers 0
      [] (List.replicate function.localCount 0) := by
  have hplain : machine.plain.program.function? id = some function := hfunction
  simp only [startCall, plain_resolve htiers hfunction, start, hplain]
  exact .intro htiers (Frame.holds_enter function args)

theorem advance_of_stands
    (h : progress.Stands machine.program function args callers offset stack locals)
    {instr : Instruction} (hdecode : Instruction.decode function.code offset = .ok instr) :
    ∃ state frame, state.tiers = (State.initial machine.program).tiers ∧
      frame.Holds function args stack locals ∧
      machine.plain.advance 1 progress =
        match instr.perform machine.program ⟨function, offset⟩ (offset + instr.encodedLength)
          Word.toIndex? frame with
        | .error reason => stop reason (callers.length + 1) state
        | .ok request =>
          machine.plain.serve (.interpreted function) offset callers state request := by
  cases h with
  | @intro state frame htiers hholds =>
    let execution : Execution := ⟨state, ⟨.interpreted function, offset, frame⟩, callers⟩
    have hasked : machine.plain.asked execution = instr.perform machine.program
        ⟨function, offset⟩ (offset + instr.encodedLength) Word.toIndex? frame :=
      interpret_eq_perform ⟨function, offset⟩ hdecode
    have hobserve := machine.plain.observe_reports execution
    refine ⟨_, frame, hobserve.tiers.trans htiers, hholds, ?_⟩
    simp only [advance, advance_zero]
    cases hresult : machine.plain.asked execution with
    | error reason => rw [step_of_error hresult, ← hasked, hresult]
    | ok request => rw [step_of_ok hresult, ← hasked, hresult]

section Push

variable (h : progress.Stands machine.program function args callers offset stack locals)
  (hroom : stack.length < function.maxStackDepth)
include h hroom

theorem stands_pushConstant {value : Int64}
    (hdecode : Instruction.decode function.code offset = .ok (.pushConstant value)) :
    (machine.plain.advance 1 progress).Stands machine.program function args callers
      (offset + (Instruction.pushConstant value).encodedLength) (stack ++ [value]) locals := by
  obtain ⟨state, frame, htiers, hholds, hstep⟩ := advance_of_stands h hdecode
  obtain ⟨next, hpush, hnext⟩ := hholds.exists_push value hroom
  rw [hstep]
  simp only [Instruction.perform, hpush, Site.grant_ok, ok_bind, pure_eq_ok]
  exact .intro htiers hnext

theorem stands_pushArg {index : Nat} {value : Int64} (hsmall : index < 2 ^ 63)
    (hvalue : args[index]? = some value)
    (hdecode : Instruction.decode function.code offset = .ok (.pushArg (Word.ofIndex index))) :
    (machine.plain.advance 1 progress).Stands machine.program function args callers
      (offset + (Instruction.pushArg (Word.ofIndex index)).encodedLength) (stack ++ [value])
      locals := by
  obtain ⟨state, frame, htiers, hholds, hstep⟩ := advance_of_stands h hdecode
  obtain ⟨next, hpush, hnext⟩ := hholds.exists_push value hroom
  rw [hstep]
  simp only [Instruction.perform, Word.toIndex?_ofIndex hsmall, Site.require_some,
    hholds.arg_eq hvalue, hpush, Site.grant_ok, ok_bind, pure_eq_ok]
  exact .intro htiers hnext

end Push

section Binary

variable {op : BinaryOp} {left right : Int64}
  (h : progress.Stands machine.program function args callers offset (kept ++ [left, right]) locals)
  (hdecode : Instruction.decode function.code offset = .ok (.binary op))
include h hdecode

theorem stands_binary {value : Int64} (hvalue : op.apply left right = some value)
    (hroom : kept.length < function.maxStackDepth) :
    (machine.plain.advance 1 progress).Stands machine.program function args callers
      (offset + (Instruction.binary op).encodedLength) (kept ++ [value]) locals := by
  obtain ⟨state, frame, htiers, hholds, hstep⟩ := advance_of_stands h hdecode
  obtain ⟨first, second, hright, hleft, hsecond⟩ := hholds.exists_pop_pop
  obtain ⟨next, hpush, hnext⟩ := hsecond.exists_push value hroom
  rw [hstep]
  simp only [Instruction.perform, hright, hleft, hvalue, hpush, Site.grant_ok, ok_bind, pure_eq_ok]
  exact .intro htiers hnext

theorem ended_binary (hzero : op.apply left right = none) :
    ∃ state, machine.plain.advance 1 progress =
      .ended (.error (.fault (.divisionByZero function.name offset))) state := by
  obtain ⟨state, frame, -, hholds, hstep⟩ := advance_of_stands h hdecode
  obtain ⟨first, second, hright, hleft, -⟩ := hholds.exists_pop_pop
  rw [hstep]
  simp only [Instruction.perform, hright, hleft, hzero, Site.grant_ok, ok_bind, throw_eq_error]
  exact ⟨_, rfl⟩

end Binary

/-- A call starts with the highest values as its arguments, and when it has ended the caller goes on
with the result in their place. -/
theorem startCall_of_stands {callee : Nat} {values : List Int64}
    (h : progress.Stands machine.program function args callers offset (kept ++ values) locals)
    (hcallee : callee < 2 ^ 63) (hvalues : values.length < 2 ^ 63)
    (hroom : kept.length < function.maxStackDepth)
    (hdecode : Instruction.decode function.code offset =
      .ok (.call (Word.ofIndex callee) (Word.ofIndex values.length))) :
    ∃ caller state, state.tiers = (State.initial machine.program).tiers ∧
      machine.plain.advance 1 progress =
        machine.plain.startCall callee values.toArray (caller :: callers) state ∧
      ∀ value after, after.tiers = (State.initial machine.program).tiers →
        (finish value (caller :: callers) after).Stands machine.program function args callers
          (offset + (Instruction.call (Word.ofIndex callee)
            (Word.ofIndex values.length)).encodedLength) (kept ++ [value]) locals := by
  obtain ⟨state, frame, htiers, hholds, hstep⟩ := advance_of_stands h hdecode
  have hdepth : frame.depth = kept.length + values.length := by simpa using hholds.depth_eq
  have hle : values.length ≤ frame.depth := by omega
  let instr := Instruction.call (Word.ofIndex callee) (Word.ofIndex values.length)
  let caller : Caller :=
    ⟨.interpreted function, offset, offset + instr.encodedLength, kept.length, frame⟩
  refine ⟨caller, state, htiers, ?_, ?_⟩
  · rw [hstep]
    have hbase : frame.depth - values.length = kept.length := by omega
    simp only [Instruction.perform, Word.toIndex?_ofIndex hcallee, Word.toIndex?_ofIndex hvalues,
      Site.require_some, ok_bind, if_pos hle, pure_eq_ok, serve, hbase, hholds.above_eq,
      Site.grant_ok, caller, instr]
  · intro value after hafter
    obtain ⟨next, hpush, hnext⟩ := hholds.truncate.exists_push value hroom
    simp only [finish, resume, caller, hpush, Site.grant_ok]
    exact .intro (after.tiers_leave.trans hafter) hnext

theorem finish_of_stands {value : Int64}
    (h : progress.Stands machine.program function args callers offset (kept ++ [value]) locals)
    (hdecode : Instruction.decode function.code offset = .ok .ret) :
    ∃ state, state.tiers = (State.initial machine.program).tiers ∧
      machine.plain.advance 1 progress = finish value callers state := by
  obtain ⟨state, frame, htiers, hholds, hstep⟩ := advance_of_stands h hdecode
  obtain ⟨next, hpop, -⟩ := hholds.exists_pop
  refine ⟨state, htiers, ?_⟩
  rw [hstep]
  simp only [Instruction.perform, hpop, Site.grant_ok, ok_bind, pure_eq_ok, serve]

end Machine
end TieredVM
