import TieredVM.Proofs.Machine.Moves
import TieredVM.Proofs.Machine.Typed
set_option autoImplicit false

namespace TieredVM

def Opcode.transfers : Opcode → Bool
  | call | ret | halt => true
  | _ => false

theorem Opcode.transfers_eq_false_iff {op : Opcode} :
    op.transfers = false ↔ op ≠ call ∧ op ≠ ret ∧ op ≠ halt := by
  cases op <;> simp [transfers]

inductive Instruction.Yields (site : Site) (instr : Instruction) : Except Stop Request → Prop
  | proceeds (next : Nat) (frame : Frame) : instr.opcode.transfers = false →
    Yields site instr (.ok (.proceed next frame))
  | prints (text : List UInt8) (next : Nat) (frame : Frame) :
    instr.opcode = .printString ∨ instr.opcode = .printInt64 →
    Yields site instr (.ok (.print text next frame))
  | times (next : Nat) (frame : Frame) : instr.opcode = .currentTime →
    Yields site instr (.ok (.time next frame))
  | calls {callee args : Int64} {id : Nat} (base next : Nat) (frame : Frame) :
    instr = .call callee args → Word.toIndex? callee = some id →
    Yields site instr (.ok (.call id base next frame))
  | finishes (value : Int64) : instr.opcode = .ret → Yields site instr (.ok (.finish value))
  | halts : instr.opcode = .halt → Yields site instr (.error .halt)
  | divides : instr.opcode = .div ∨ instr.opcode = .mod →
    Yields site instr (.error (.fault (.divisionByZero site.function.name site.offset)))
  | fails {reason : Stop} : ¬ Outcome.Orderly (.error reason) → Yields site instr (.error reason)

theorem Stop.Denied.not_orderly {reason : Stop} (h : reason.Denied) :
    ¬ Outcome.Orderly (.error reason) := by
  intro horderly
  cases h <;> cases horderly

namespace Instruction

variable {site : Site} {instr : Instruction}

theorem Yields.require {α : Type} {part : Option α} {f : α → Except Stop Request}
    (h : ∀ a, part = some a → instr.Yields site (f a)) :
    instr.Yields site (site.require part >>= f) := by
  cases part with
  | none => exact .fails (Stop.Denied.corrupt _ _).not_orderly
  | some a => exact h a rfl

theorem Yields.grant {α : Type} {access : Except Denial α} {f : α → Except Stop Request}
    (h : ∀ a, instr.Yields site (f a)) : instr.Yields site (site.grant access >>= f) := by
  cases hgrant : site.grant access with
  | error reason => exact .fails (Site.denied_of_grant hgrant).not_orderly
  | ok a => exact h a

theorem perform_yields (instr : Instruction) (program : Program) (site : Site) (next : Nat)
    (goto : Int64 → Option Nat) (frame : Frame) :
    instr.Yields site (instr.perform program site next goto frame) := by
  cases instr with
  | nop => exact .proceeds next frame rfl
  | pushConstant value => exact .grant fun frame => .proceeds next frame rfl
  | pushArg word | pushLocal word =>
    exact .require fun index _ => .grant fun value => .grant fun frame => .proceeds next frame rfl
  | pop => exact .grant fun popped => .proceeds next popped.2 rfl
  | popLocal word =>
    exact .require fun slot _ => .grant fun popped => .grant fun frame => .proceeds next frame rfl
  | dup => exact .grant fun value => .grant fun frame => .proceeds next frame rfl
  | binary op =>
    refine .grant fun right => .grant fun left => ?_
    cases hvalue : op.apply left.1 right.1 with
    | none =>
      simp only [hvalue]
      obtain ⟨rfl | rfl, -⟩ := BinaryOp.apply_eq_none_iff.1 hvalue
      · exact .divides (.inl rfl)
      · exact .divides (.inr rfl)
    | some value =>
      simp only [hvalue]
      exact .grant fun frame => .proceeds next frame (by cases op <;> rfl)
  | jump target => exact .require fun place _ => .proceeds place frame rfl
  | branch condition target =>
    refine .require fun place _ => .grant fun right => .grant fun left => ?_
    exact .proceeds _ left.2 (by cases condition <;> rfl)
  | call callee args =>
    refine .require fun id hid => .require fun args _ => ?_
    split
    · exact .calls _ next frame rfl hid
    · exact .fails (Stop.Denied.corrupt _ _).not_orderly
  | ret => exact .grant fun popped => .finishes popped.1 rfl
  | printString id =>
    simp only [perform]
    cases (Word.toIndex? id).bind program.string? with
    | none => exact .fails fun horderly => by cases horderly
    | some text => exact .prints text next frame (.inl rfl)
  | printInt64 => exact .grant fun popped => .prints _ next popped.2 (.inr rfl)
  | currentTime => exact .times next frame rfl
  | halt => exact .halts rfl

theorem Yields.transfers_eq_false {request : Request} (h : instr.Yields site (.ok request))
    (hgoes : request.goesOn = true) : instr.opcode.transfers = false := by
  cases h with
  | proceeds _ _ hop => exact hop
  | prints _ _ _ hop => rcases hop with hop | hop <;> rw [hop] <;> rfl
  | times _ _ hop => rw [hop]; rfl
  | calls | finishes => cases hgoes

theorem Yields.served {places : Nat → Nat → Prop} {first second : Except Stop Request}
    (h : instr.Yields site second) (hserved : Served places first second) :
    instr.Yields site first := by
  cases hserved with
  | stop reason => exact h
  | request hmatches =>
    cases hmatches with
    | proceed frame =>
      cases h with
      | proceeds _ _ hop => exact .proceeds _ frame hop
    | print text frame =>
      cases h with
      | prints _ _ _ hop => exact .prints text _ frame hop
    | time frame =>
      cases h with
      | times _ _ hop => exact .times _ frame hop
    | call function base frame =>
      cases h with
      | calls _ _ _ hcall hid => exact .calls base _ frame hcall hid
    | finish value => exact h

end Instruction

/-- The instruction that is about to run, in whatever form of its function. -/
structure Machine.Faces (machine : Machine) (execution : Execution) (instr : Instruction) :
    Prop where
  listed : machine.program.function? execution.active.tier.function.id =
    some execution.active.tier.function
  decoded : Instruction.decode execution.active.tier.function.code
    (execution.active.tier.offset execution.active.place) = .ok instr
  opcode : execution.active.tier.opcode? execution.active.place = some instr.opcode
  item : (execution.active.tier.offset execution.active.place, instr) ∈
    (Listing.ofCode execution.active.tier.function.code).items
  agrees : execution.active.tier.Agrees machine.program execution.active.place
    execution.active.tier.function (execution.active.tier.offset execution.active.place)
  yields : instr.Yields (execution.active.tier.site execution.active.place)
    (machine.asked execution)

/-- Past the no-ops that compiled code has lost, verified code goes on in the same way. -/
theorem Function.Checked.exists_agrees {program : Program} {function : Function}
    {summary : StackSummary} {tier : Tier} {place offset depth : Nat}
    (hchecked : function.Checked program summary)
    (htier : tier.Follows program place function offset)
    (hdepth : summary.depths[offset]? = some depth) :
    ∃ offset instr, tier.Agrees program place function offset ∧
      (offset, instr) ∈ (Listing.ofCode function.code).items ∧
      function.Allows program summary offset depth instr := by
  obtain ⟨instr, hitem, hallows⟩ := hchecked.exists_item hdepth
  rcases htier.agrees_or_skips with hagrees | ⟨hdecode, hnext⟩
  · exact ⟨offset, instr, hagrees, hitem, hallows⟩
  · obtain rfl : instr = .nop := by
      have hnop := hallows.decoded.symm.trans hdecode
      cases hnop
      rfl
    -- The no-op stands within the code, so less of it is ahead.
    have hle := Instruction.offset_add_le_of_decode hdecode
    exact hchecked.exists_agrees hnext (hallows.flows rfl)
termination_by function.code.size - offset
decreasing_by
  have := Instruction.encodedLength_pos .nop
  omega

namespace Machine

variable {machine : Machine} {base : State} {execution : Execution} {plain : Progress}

theorem exists_faces (hfollows : (Progress.running execution).Follows machine.program base plain)
    (htyped : plain.Typed machine.program) : ∃ instr, machine.Faces execution instr := by
  cases hfollows with
  | @running state echo tier function place offset frame callers echoes _ htier _ =>
    cases htyped with
    | running _ hactive _ =>
      obtain ⟨found, summary, hsame, hlisted, hchecked, hfits, hdepth⟩ := hactive
      cases hsame
      obtain ⟨offset, instr, hagrees, hitem, hallows⟩ := hchecked.exists_agrees htier hdepth
      have hfunction : tier.function = function := congrArg Site.function hagrees.site
      have hoffset : tier.offset place = offset := congrArg Site.offset hagrees.site
      refine ⟨instr, ?_, ?_, ?_, ?_, ?_, ?_⟩
      · simpa only [hfunction] using hlisted
      · simpa only [hfunction, hoffset] using hallows.decoded
      · exact hagrees.opcode.trans (Instruction.opcode_of_decode hallows.decoded)
      · simpa only [hfunction, hoffset] using hitem
      · simpa only [hfunction, hoffset] using hagrees
      · have hplain : (Tier.interpreted function).run .switch machine.program offset frame = _ :=
          interpret_eq_perform ⟨function, offset⟩ hallows.decoded
        have hserved := hagrees.run machine.config.dispatch .switch frame
        rw [hplain] at hserved
        simp only [hagrees.site]
        exact (instr.perform_yields machine.program _ _ _ frame).served hserved

end Machine
end TieredVM
