import TieredVM.Proofs.Machine.Yields
import TieredVM.Proofs.Session.Counting
import TieredVM.Proofs.Verify.CallGraph
set_option autoImplicit false

namespace TieredVM

structure Bookmark where
  tier : Tier
  place : Nat
  deriving DecidableEq, Repr

namespace Bookmark

def function (mark : Bookmark) : Function := mark.tier.function

def offset (mark : Bookmark) : Nat := mark.tier.offset mark.place

end Bookmark

def Caller.bookmark (caller : Caller) : Bookmark := ⟨caller.tier, caller.next⟩

def Execution.bookmarks (execution : Execution) : List Bookmark :=
  ⟨execution.active.tier, execution.active.place⟩ :: execution.callers.map Caller.bookmark

def Request.next? : Request → Option Nat
  | proceed next _ | print _ next _ | time next _ | call _ _ next _ => some next
  | finish _ => none

theorem Request.Matches.next? {places : Nat → Nat → Prop} {first second : Request} {n : Nat}
    (h : first.Matches places second) (hnext : first.next? = some n) :
    ∃ p, second.next? = some p ∧ places n p := by
  cases h with
  | proceed _ hplaces | print _ _ hplaces | time _ hplaces | call _ _ _ hplaces =>
    cases hnext
    exact ⟨_, rfl, hplaces⟩
  | finish => cases hnext

/-- All jumps in the code of a program lead further down it. -/
def Program.LoopFree (program : Program) : Prop :=
  ∀ function ∈ program.functions, ∀ item ∈ (Listing.ofCode function.code).items,
    ∀ target ∈ item.2.jumpTarget?, (item.1 : Int) < target.toInt

instance (program : Program) : Decidable program.LoopFree :=
  -- Only the target of the instruction is looked at, not every word.
  haveI (item : Nat × Instruction) :
      Decidable (∀ target ∈ item.2.jumpTarget?, (item.1 : Int) < target.toInt) :=
    Option.decidableForallMem item.2.jumpTarget?
  inferInstanceAs (Decidable (∀ function ∈ program.functions,
    ∀ item ∈ (Listing.ofCode function.code).items, ∀ target ∈ item.2.jumpTarget?,
      (item.1 : Int) < target.toInt))

/-- Bookmarks move down the code, and calls lead along the call graph. -/
inductive Program.Advances (program : Program) : List Bookmark → List Bookmark → Prop
  | proceeds {tier : Tier} {place next : Nat} {rest : List Bookmark} :
    tier.offset place < tier.offset next →
    Advances program (⟨tier, place⟩ :: rest) (⟨tier, next⟩ :: rest)
  | calls {tier callee : Tier} {place next : Nat} {rest : List Bookmark} :
    tier.offset place < tier.offset next →
    program.function? callee.function.id = some callee.function →
    program.Calls tier.function.id callee.function.id →
    Advances program (⟨tier, place⟩ :: rest) (⟨callee, 0⟩ :: ⟨tier, next⟩ :: rest)
  | returns (mark : Bookmark) (rest : List Bookmark) : Advances program (mark :: rest) rest

theorem ThreadedCode.Aligned.le_offset {program : Program} {code : ThreadedCode}
    {place offset : Nat} (h : Aligned program code place offset) : offset ≤ code.offset place := by
  cases h.standing with
  | finished _ hplace hsize => simp [ThreadedCode.offset, hplace, hsize]
  | skipped hdecode hnext =>
    have hle := Instruction.offset_add_le_of_decode hdecode
    have hlater := hnext.le_offset
    omega
  | operation _ _ _ _ hplace => simp [ThreadedCode.offset, hplace]
termination_by code.function.code.size - offset
decreasing_by
  have := Instruction.encodedLength_pos .nop
  omega

theorem Tier.Follows.le_offset {program : Program} {tier : Tier} {function : Function}
    {place offset : Nat} (h : tier.Follows program place function offset) :
    offset ≤ tier.offset place := by
  cases h with
  | interpreted => exact Nat.le_refl _
  | compiled _ haligned => exact haligned.le_offset

/-- An instruction whose jumps lead ahead leaves its call further down the code, in whatever form
the function runs. -/
theorem Tier.Agrees.offset_lt {program : Program} {tier : Tier} {function : Function}
    {place offset next : Nat} {instr : Instruction} {dispatch : Dispatch} {frame : Frame}
    {request : Request} (h : tier.Agrees program place function offset)
    (hdecode : Instruction.decode function.code offset = .ok instr)
    (hjumps : ∀ target, instr.jumpTarget? = some target → (offset : Int) < target.toInt)
    (hrun : tier.run dispatch program place frame = .ok request)
    (hnext : request.next? = some next) : tier.offset place < tier.offset next := by
  have hserved := h.run dispatch .switch frame
  -- In the code as it is, the call goes on at an offset further down.
  have hplain : (Tier.interpreted function).run .switch program offset frame = _ :=
    interpret_eq_perform ⟨function, offset⟩ hdecode
  have hahead : Served (fun place _ => offset < place)
      ((Tier.interpreted function).run .switch program offset frame)
      ((Tier.interpreted function).run .switch program offset frame) := by
    rw [hplain]
    refine Instruction.perform_served ?_ (fun target htarget => ?_) frame
    · exact Nat.lt_add_of_pos_right instr.encodedLength_pos
    · have hlt := hjumps target htarget
      have hnonneg : 0 ≤ target.toInt := by omega
      have hplace := Word.toIndex?_of_nonneg hnonneg
      exact ⟨_, _, hplace, hplace, by omega⟩
  rw [hrun] at hserved
  generalize (Tier.interpreted function).run .switch program offset frame = plain at hserved hahead
  cases hserved with
  | request hmatches =>
    cases hahead with
    | request hahead =>
      -- This form of the function goes on at a place that stands for that offset.
      obtain ⟨there, hthere, hfollows⟩ := hmatches.next? hnext
      obtain ⟨-, -, hlt⟩ := hahead.next? hthere
      have hoffset : tier.offset place = offset := congrArg Site.offset h.site
      exact hoffset ▸ Nat.lt_of_lt_of_le hlt hfollows.le_offset

namespace Machine

variable {machine : Machine} {execution later : Execution} {resolved : List Nat}

theorem exists_of_startCall {id : Nat} {args : Array Int64} {callers : List Caller} {state : State}
    (hcounts : state.Counts machine resolved)
    (hstart : machine.startCall id args callers state = .running later) :
    ∃ tier, machine.program.function? id = some tier.function ∧
      later.bookmarks = ⟨tier, 0⟩ :: callers.map Caller.bookmark := by
  unfold startCall at hstart
  split at hstart
  · cases hstart
  · rename_i hresolve
    obtain ⟨tier, final, henter, hlisted, -⟩ := hcounts.opens hresolve args callers
    rw [henter] at hstart
    cases hstart
    exact ⟨tier, hlisted, rfl⟩

theorem advances_of_step {instr : Instruction} (hdense : machine.program.Dense)
    (hloopFree : machine.program.LoopFree) (hcounts : execution.state.Counts machine resolved)
    (hfaces : machine.Faces execution instr) (hstep : machine.step execution = .running later) :
    machine.program.Advances execution.bookmarks later.bookmarks := by
  have hjumps := hloopFree _ (Array.mem_of_getElem? hfaces.listed) _ hfaces.item
  have hyields := hfaces.yields
  have hobserved := hcounts.reports (machine.observe_reports execution)
  cases hasked : machine.asked execution with
  | error reason =>
    rw [step_of_error hasked] at hstep
    cases hstep
  | ok request =>
    rw [step_of_ok hasked] at hstep
    have hlt : ∀ next, request.next? = some next →
        execution.active.tier.offset execution.active.place < execution.active.tier.offset next :=
      fun next => hfaces.agrees.offset_lt hfaces.decoded hjumps hasked
    cases request with
    | proceed next frame =>
      cases hstep
      exact .proceeds (hlt next rfl)
    | print text next frame =>
      simp only [serve] at hstep
      split at hstep
      · cases hstep
      · cases hstep
        exact .proceeds (hlt next rfl)
    | time next frame =>
      simp only [serve] at hstep
      split at hstep
      · cases hstep
      · cases hstep
        exact .proceeds (hlt next rfl)
    | call id base next frame =>
      simp only [serve] at hstep
      split at hstep
      · cases hstep
      · obtain ⟨callee, hlisted, hmarks⟩ := exists_of_startCall hobserved hstep
        rw [hasked] at hyields
        cases hyields with
        | calls _ _ _ hinstr hid =>
          subst hinstr
          obtain rfl : callee.function.id = id := hdense id callee.function hlisted
          rw [hmarks]
          exact .calls (hlt next rfl) hlisted ⟨_, _, _, _, hfaces.listed, hfaces.item, hid⟩
    | finish value =>
      cases hcallers : execution.callers with
      | nil =>
        rw [hcallers] at hstep
        cases hstep
      | cons caller callers =>
        rw [hcallers] at hstep
        simp only [serve, finish, resume] at hstep
        split at hstep
        · cases hstep
        · cases hstep
          rw [Execution.bookmarks, hcallers]
          exact .returns _ _

end Machine
end TieredVM
