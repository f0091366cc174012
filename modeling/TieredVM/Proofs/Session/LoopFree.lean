import Mathlib.Algebra.Order.BigOperators.Group.List
import Mathlib.Algebra.Order.Ring.Nat
import TieredVM.Proofs.Session.Bookmarks
import TieredVM.Proofs.Session.Brackets
set_option autoImplicit false

namespace TieredVM

namespace Bookmark

def ahead (mark : Bookmark) : Nat := mark.function.code.size - mark.offset

def Within (mark : Bookmark) : Prop := mark.offset < mark.function.code.size

end Bookmark

namespace Program

def codeSize (program : Program) : Nat := (program.functions.toList.map (·.code.size)).sum

/-- More steps than a call can still take, the calls that it makes included: each byte ahead may
call a function with all the code that there is, but with fewer functions below it. -/
noncomputable def weight (program : Program) (mark : Bookmark) : Nat :=
  mark.ahead * (program.codeSize + 1) ^ (program.below mark.function.id).card

noncomputable def potential (program : Program) (marks : List Bookmark) : Nat :=
  (marks.map program.weight).sum

/-- Every call has, besides itself and the calls that wait for it, all functions below it. -/
def Nests (program : Program) : List Bookmark → Prop
  | [] => True
  | mark :: rest =>
    (program.below mark.function.id).card + rest.length < program.functions.size ∧
      Nests program rest

variable {program : Program} {marks later : List Bookmark}

theorem size_code_le {id : Nat} {function : Function} (h : program.function? id = some function) :
    function.code.size ≤ program.codeSize := by
  have hmem : function ∈ program.functions.toList := by
    simpa using Array.mem_of_getElem? h
  exact List.le_sum_of_mem (List.mem_map_of_mem hmem)

theorem weight_add_le {tier : Tier} {place next : Nat} (h : tier.offset place < tier.offset next)
    (hwithin : Bookmark.Within ⟨tier, place⟩) :
    program.weight ⟨tier, next⟩ + (program.codeSize + 1) ^ (program.below tier.function.id).card ≤
      program.weight ⟨tier, place⟩ := by
  have hahead : Bookmark.ahead ⟨tier, next⟩ + 1 ≤ Bookmark.ahead ⟨tier, place⟩ := by
    simp only [Bookmark.ahead, Bookmark.Within, Bookmark.function, Bookmark.offset] at *
    omega
  have hmul := Nat.mul_le_mul_right
    ((program.codeSize + 1) ^ (program.below tier.function.id).card) hahead
  rwa [Nat.succ_mul] at hmul

theorem weight_pos {mark : Bookmark} (h : mark.Within) : 0 < program.weight mark := by
  have hahead : 0 < mark.ahead := Nat.sub_pos_of_lt h
  exact Nat.mul_pos hahead (Nat.pow_pos (Nat.succ_pos _))

theorem weight_callee_lt {caller : Nat} {callee : Tier} (hacyclic : program.Acyclic)
    (hlisted : program.function? callee.function.id = some callee.function)
    (hcalls : program.Calls caller callee.function.id) :
    program.weight ⟨callee, 0⟩ < (program.codeSize + 1) ^ (program.below caller).card := by
  have hcard := hacyclic.card_below_lt_of_calls hcalls (Array.getElem?_eq_some_iff.1 hlisted).1
  have hahead : Bookmark.ahead ⟨callee, 0⟩ < program.codeSize + 1 :=
    Nat.lt_succ_of_le ((Nat.sub_le _ _).trans (size_code_le hlisted))
  calc program.weight ⟨callee, 0⟩
      < (program.codeSize + 1) * (program.codeSize + 1) ^ (program.below callee.function.id).card :=
        Nat.mul_lt_mul_of_pos_right hahead (Nat.pow_pos (Nat.succ_pos _))
    _ = (program.codeSize + 1) ^ ((program.below callee.function.id).card + 1) := by
        rw [Nat.pow_succ, Nat.mul_comm]
    _ ≤ (program.codeSize + 1) ^ (program.below caller).card :=
        Nat.pow_le_pow_right (Nat.succ_pos _) hcard

theorem Advances.potential_lt {mark : Bookmark} {rest : List Bookmark}
    (h : program.Advances (mark :: rest) later) (hacyclic : program.Acyclic)
    (hwithin : mark.Within) : program.potential later < program.potential (mark :: rest) := by
  simp only [potential, List.map_cons, List.sum_cons]
  cases h with
  | @proceeds tier _ _ _ hlt =>
    have hweight := program.weight_add_le hlt hwithin
    have hpos : 0 < (program.codeSize + 1) ^ (program.below tier.function.id).card :=
      Nat.pow_pos (Nat.succ_pos _)
    simp only [List.map_cons, List.sum_cons]
    omega
  | calls hlt hlisted hcalls =>
    have hweight := program.weight_add_le hlt hwithin
    have hcallee := weight_callee_lt hacyclic hlisted hcalls
    simp only [List.map_cons, List.sum_cons]
    omega
  | returns =>
    have hpos := program.weight_pos hwithin
    omega

theorem Advances.nests (h : program.Advances marks later) (hacyclic : program.Acyclic)
    (hnests : program.Nests marks) : program.Nests later := by
  cases h with
  | proceeds => exact hnests
  | calls _ hlisted hcalls =>
    have hcard := hacyclic.card_below_lt_of_calls hcalls (Array.getElem?_eq_some_iff.1 hlisted).1
    have hroom := hnests.1
    refine ⟨?_, hnests⟩
    simp only [Bookmark.function, List.length_cons] at *
    omega
  | returns => exact hnests.2

theorem Advances.keeps {upper rest : List Bookmark} {tier : Tier} {place : Nat}
    (h : program.Advances (upper ++ ⟨tier, place⟩ :: rest) later)
    (hlength : rest.length < later.length) :
    ∃ above next, later = above ++ ⟨tier, next⟩ :: rest ∧
      tier.offset place ≤ tier.offset next ∧
      (upper = [] → tier.offset place < tier.offset next) := by
  cases upper with
  | nil =>
    cases h with
    | proceeds hlt => exact ⟨[], _, rfl, Nat.le_of_lt hlt, fun _ => hlt⟩
    | calls hlt => exact ⟨[_], _, rfl, Nat.le_of_lt hlt, fun _ => hlt⟩
    | returns => exact absurd hlength (Nat.lt_irrefl _)
  | cons mark upper =>
    generalize hmarks : mark :: upper ++ ⟨tier, place⟩ :: rest = marks at h
    cases h with
    | proceeds =>
      obtain ⟨rfl, rfl⟩ := List.cons.inj hmarks
      exact ⟨_ :: upper, place, rfl, Nat.le_refl _, by simp⟩
    | calls =>
      obtain ⟨rfl, rfl⟩ := List.cons.inj hmarks
      exact ⟨_ :: _ :: upper, place, rfl, Nat.le_refl _, by simp⟩
    | returns =>
      obtain ⟨rfl, rfl⟩ := List.cons.inj hmarks
      exact ⟨upper, place, rfl, Nat.le_refl _, by simp⟩

end Program

namespace Machine

variable {machine : Machine} {start : Progress}

/-- Wherever a run stands, an instruction stands there, and a step that does not end the run
advances its bookmarks. -/
structure Straight (machine : Machine) (start : Progress) : Prop where
  within : ∀ count execution, machine.advance count start = .running execution →
    Bookmark.Within ⟨execution.active.tier, execution.active.place⟩
  advances : ∀ count execution later, machine.advance count start = .running execution →
    machine.step execution = .running later →
    machine.program.Advances execution.bookmarks later.bookmarks

/-- The call that is active at one time of a run is active again at a later time, and has not ended
in between. -/
structure SameCall (machine : Machine) (start : Progress) (first second : Nat)
    (before after : Execution) : Prop where
  order : first < second
  active : machine.advance first start = .running before
  again : machine.advance second start = .running after
  depth : after.callers.length = before.callers.length
  kept : ∀ count between, first ≤ count → count ≤ second →
    machine.advance count start = .running between →
    before.callers.length ≤ between.callers.length

namespace Straight

variable (h : machine.Straight start)
include h

theorem add_potential_le {first execution : Execution} (hacyclic : machine.program.Acyclic)
    (hstart : start = .running first) {count : Nat}
    (hcount : machine.advance count start = .running execution) :
    count + machine.program.potential execution.bookmarks ≤
      machine.program.potential first.bookmarks := by
  induction count generalizing execution with
  | zero =>
    rw [advance_zero, hstart] at hcount
    cases hcount
    exact Nat.le_of_eq (Nat.zero_add _)
  | succ count ih =>
    obtain ⟨before, hbefore, hstep⟩ := exists_running_of_succ hcount
    have hle := ih hbefore
    have hlt := (h.advances count before execution hbefore hstep).potential_lt hacyclic
      (h.within count before hbefore)
    have hbookmarks : machine.program.potential before.bookmarks = machine.program.potential
      (⟨before.active.tier, before.active.place⟩ :: before.callers.map Caller.bookmark) := rfl
    omega

theorem exists_ended (hacyclic : machine.program.Acyclic) :
    ∃ count outcome final, machine.advance count start = .ended outcome final := by
  cases hstart : start with
  | ended outcome final => exact ⟨0, outcome, final, rfl⟩
  | running first =>
    rw [← hstart]
    cases hcount : machine.advance (machine.program.potential first.bookmarks + 1) start with
    | ended outcome final => exact ⟨_, outcome, final, hcount⟩
    | running execution =>
      have hle := h.add_potential_le hacyclic hstart hcount
      omega

theorem nests {first execution : Execution} (hacyclic : machine.program.Acyclic)
    (hstart : start = .running first) (hnests : machine.program.Nests first.bookmarks) {count : Nat}
    (hcount : machine.advance count start = .running execution) :
    machine.program.Nests execution.bookmarks := by
  induction count generalizing execution with
  | zero =>
    rw [advance_zero, hstart] at hcount
    cases hcount
    exact hnests
  | succ count ih =>
    obtain ⟨before, hbefore, hstep⟩ := exists_running_of_succ hcount
    exact (h.advances count before execution hbefore hstep).nests hacyclic (ih hbefore)

theorem exists_bookmark {first gap : Nat} {before after : Execution}
    (hbefore : machine.advance first start = .running before)
    (hafter : machine.advance (first + gap + 1) start = .running after)
    (hkept : ∀ count between, first ≤ count → count ≤ first + gap + 1 →
      machine.advance count start = .running between →
      before.callers.length ≤ between.callers.length) :
    ∃ above next, after.bookmarks =
        above ++ ⟨before.active.tier, next⟩ :: before.callers.map Caller.bookmark ∧
      before.active.tier.offset before.active.place < before.active.tier.offset next := by
  have hroom : ∀ later : Execution, before.callers.length ≤ later.callers.length →
      (before.callers.map Caller.bookmark).length < later.bookmarks.length := by
    intro later hle
    simp only [Execution.bookmarks, List.length_map, List.length_cons]
    omega
  induction gap generalizing after with
  | zero =>
    obtain ⟨between, hbetween, hstep⟩ := exists_running_of_succ hafter
    obtain rfl : before = between := Progress.running.inj (hbefore.symm.trans hbetween)
    have hadvances : machine.program.Advances ([] ++ ⟨before.active.tier, before.active.place⟩ ::
        before.callers.map Caller.bookmark) after.bookmarks :=
      h.advances _ before after hbefore hstep
    obtain ⟨above, next, hmarks, -, hlt⟩ :=
      hadvances.keeps (hroom after (hkept _ after (by omega) (Nat.le_refl _) hafter))
    exact ⟨above, next, hmarks, hlt rfl⟩
  | succ gap ih =>
    obtain ⟨between, hbetween, hstep⟩ := exists_running_of_succ hafter
    obtain ⟨above, next, hmarks, hlt⟩ :=
      ih hbetween fun count other hle hcount => hkept count other hle (by omega)
    have hadvances := h.advances _ between after hbetween hstep
    rw [hmarks] at hadvances
    obtain ⟨above', next', hmarks', hle, -⟩ :=
      hadvances.keeps (hroom after (hkept _ after (by omega) (Nat.le_refl _) hafter))
    exact ⟨above', next', hmarks', Nat.lt_of_lt_of_le hlt hle⟩

theorem offset_lt {first second : Nat} {before after : Execution}
    (hsame : machine.SameCall start first second before after) :
    after.active.tier = before.active.tier ∧
      before.active.tier.offset before.active.place <
        after.active.tier.offset after.active.place := by
  obtain ⟨gap, rfl⟩ := Nat.exists_eq_add_of_lt hsame.order
  obtain ⟨above, next, hmarks, hlt⟩ := h.exists_bookmark hsame.active hsame.again hsame.kept
  have hlength := congrArg List.length hmarks
  have hdepth := hsame.depth
  simp only [Execution.bookmarks, List.length_cons, List.length_append, List.length_map] at hlength
  -- The call is active again, so there is no bookmark above its own.
  obtain rfl : above = [] := List.length_eq_zero_iff.1 (by omega)
  obtain ⟨hmark, -⟩ := List.cons.inj hmarks
  obtain ⟨htier, hplace⟩ := Bookmark.mk.inj hmark
  rw [htier, hplace]
  exact ⟨rfl, hlt⟩

end Straight

theorem callDepth_of_mem_observed {execution : Execution} {record : TraceRecord}
    (h : record ∈ machine.observed execution) :
    record.callDepth = execution.state.chain.length := by
  unfold observed at h
  split at h
  · obtain ⟨opcode, -, rfl⟩ := Option.map_eq_some_iff.1 (Option.mem_toList.1 h)
    rfl
  · cases h

section Runs

variable {frames : List FrameLink} {state : State} {id : Nat} {function : Function}
  {args : Array Int64} {execution : Execution}

theorem straight_startCall (haccepted : machine.program.Accepted)
    (hloopFree : machine.program.LoopFree) (hreached : machine.Reached frames state)
    (hfunction : machine.program.function? id = some function)
    (hargs : args.size = function.argCount) :
    machine.Straight (machine.startCall id args [] state) where
  within count execution hcount := by
    obtain ⟨instr, hfaces⟩ := hreached.exists_faces haccepted hfunction hargs hcount
    have hle := Instruction.offset_add_le_of_decode hfaces.decoded
    have hpos := instr.encodedLength_pos
    simp only [Bookmark.Within, Bookmark.offset, Bookmark.function]
    omega
  advances count execution later hcount hstep := by
    obtain ⟨instr, hfaces⟩ := hreached.exists_faces haccepted hfunction hargs hcount
    obtain ⟨ledger, -, hvisits⟩ := hreached.visits_advance id args count
    rw [hcount] at hvisits
    have hdense : machine.program.Dense := fun _ _ hlisted => (haccepted.checked hlisted).1
    exact advances_of_step hdense hloopFree hvisits.counts hfaces hstep

theorem nests_startCall (haccepted : machine.program.Accepted)
    (hloopFree : machine.program.LoopFree) (hacyclic : machine.program.Acyclic)
    (hreached : machine.Reached frames state)
    (hfunction : machine.program.function? id = some function)
    (hargs : args.size = function.argCount) {count : Nat}
    (hcount : machine.advance count (machine.startCall id args [] state) = .running execution) :
    machine.program.Nests execution.bookmarks := by
  have hstraight := straight_startCall haccepted hloopFree hreached hfunction hargs
  obtain ⟨ledger, -, hvisits⟩ := hreached.visits
  cases hstart : machine.startCall id args [] state with
  | ended outcome final =>
    rw [hstart, advance_ended] at hcount
    cases hcount
  | running first =>
    obtain ⟨tier, hlisted, hmarks⟩ := exists_of_startCall hvisits.counts hstart
    have hcard := hacyclic.card_below_lt (Array.getElem?_eq_some_iff.1 hlisted).1
    have hid : tier.function.id = id := (haccepted.checked hlisted).1
    refine hstraight.nests hacyclic hstart ?_ hcount
    rw [hmarks]
    exact ⟨by simpa [Bookmark.function, hid] using hcard, trivial⟩

theorem exists_events (haccepted : machine.program.Accepted)
    (hloopFree : machine.program.LoopFree) (hacyclic : machine.program.Acyclic)
    (hreached : machine.Reached frames state)
    (hfunction : machine.program.function? id = some function)
    (hargs : args.size = function.argCount) (count : Nat) :
    ∃ events, (machine.advance count
        (machine.startCall id args [] state)).state.journal.toList =
          state.journal.toList ++ events ∧
      ∀ record ∈ Event.traceOf events,
        record.callDepth ≤ frames.length + machine.program.functions.size := by
  induction count with
  | zero =>
    obtain ⟨⟨events, hjournal, -, htrace⟩, -⟩ := machine.writes_startCall id args [] state
    rw [advance_zero]
    exact ⟨events, hjournal, by simp [htrace]⟩
  | succ count ih =>
    obtain ⟨events, hjournal, hle⟩ := ih
    cases hcount : machine.advance count (machine.startCall id args [] state) with
    | ended outcome final =>
      rw [advance_succ_of_ended hcount, ← hcount]
      exact ⟨events, hjournal, hle⟩
    | running execution =>
      obtain ⟨ledger, hframes, hvisits⟩ := hreached.visits_advance id args count
      obtain ⟨more, hmore, -, hsilent⟩ := machine.step_journal execution
      have hroom := (nests_startCall haccepted hloopFree hacyclic hreached hfunction hargs hcount).1
      rw [hcount] at hvisits hjournal
      have hchain := hvisits.length_chain
      have hheld := congrArg List.length hframes
      simp only [List.length_map] at hroom hheld
      refine ⟨events ++ ((machine.observed execution).map .trace ++ more), ?_, ?_⟩
      · rw [Progress.state] at hjournal
        rw [advance_succ_of_running hcount, hmore, hjournal, List.append_assoc]
      · intro record hrecord
        rw [Event.traceOf_append, Event.traceOf_append, Event.traceOf_map_trace, hsilent,
          List.append_nil, List.mem_append] at hrecord
        rcases hrecord with hrecord | hrecord
        · exact hle record hrecord
        · rw [callDepth_of_mem_observed hrecord, hchain]
          omega

/-- Calls of an accepted program without loops and recursion end. On the way, no call runs an
instruction twice, and the active calls, besides the frames that are held open, are no more than
there are functions. -/
theorem runWithArgs_straight (haccepted : machine.program.Accepted)
    (hloopFree : machine.program.LoopFree) (hacyclic : machine.program.Acyclic)
    (hreached : machine.Reached frames state)
    (hfunction : machine.program.function? id = some function)
    (hargs : args.size = function.argCount) :
    (∃ fuel outcome final, machine.runWithArgs fuel id args state = some (outcome, final)) ∧
    (∀ first second before after,
      machine.SameCall (machine.startWithArgs id args state) first second before after →
      after.active.tier = before.active.tier ∧
        before.active.tier.offset before.active.place <
          after.active.tier.offset after.active.place) ∧
    ∀ count, ∀ record ∈ Event.traceOf ((machine.advance count
        (machine.startWithArgs id args state)).state.journal.toList.drop state.journal.size),
      record.callDepth ≤ frames.length + machine.program.functions.size := by
  have hstart : machine.startWithArgs id args state = machine.startCall id args [] state := by
    simp only [startWithArgs, hfunction, if_pos hargs]
  have hstraight := straight_startCall haccepted hloopFree hreached hfunction hargs
  simp only [runWithArgs, hstart, run_eq_some_iff]
  refine ⟨hstraight.exists_ended hacyclic, fun _ _ _ _ hsame => hstraight.offset_lt hsame,
    fun count record hrecord => ?_⟩
  obtain ⟨events, hjournal, hle⟩ :=
    exists_events haccepted hloopFree hacyclic hreached hfunction hargs count
  rw [hjournal, ← Array.length_toList, List.drop_left] at hrecord
  exact hle record hrecord

end Runs

def magnitude : Program where
  name := "magnitude"
  functions := #[
    { name := "main", id := 0, argCount := 1, localCount := 0, maxStackDepth := 1
      code := (List.flatMap Instruction.encode [.pushArg 0, .call 1 1, .ret]).toArray },
    { name := "abs", id := 1, argCount := 1, localCount := 0, maxStackDepth := 2
      code := (List.flatMap Instruction.encode [.pushArg 0, .pushConstant 0, .branch .less 37,
        .pushArg 0, .ret, .nop, .pushConstant 0, .pushArg 0, .binary .sub, .ret]).toArray }]
  strings := #[]

theorem magnitude_accepted : magnitude.Accepted :=
  Program.Verifies.accepted (by decide +kernel) (by decide +kernel)

def magnitudeCompiled : Machine where
  program := magnitude
  config := { tiering := .tiered 1, trace := true }

theorem runWithArgs_straight_magnitude :
    (∃ fuel outcome final, magnitudeCompiled.runWithArgs fuel 0 #[-5] (State.initial magnitude) =
      some (outcome, final)) ∧
    (∀ first second before after, magnitudeCompiled.SameCall
        (magnitudeCompiled.startWithArgs 0 #[-5] (State.initial magnitude)) first second before
        after →
      before.active.tier.offset before.active.place <
        after.active.tier.offset after.active.place) ∧
    ∀ count, ∀ record ∈ Event.traceOf ((magnitudeCompiled.advance count
        (magnitudeCompiled.startWithArgs 0 #[-5]
          (State.initial magnitude))).state.journal.toList.drop 0),
      record.callDepth ≤ 2 := by
  have haccepted : magnitudeCompiled.program.Accepted := magnitude_accepted
  have hloopFree : magnitude.LoopFree := by decide +kernel
  have hacyclic : magnitude.Acyclic := Program.acyclic_of_callees_lt (by decide +kernel)
  have hfunction : magnitudeCompiled.program.function? 0 = some magnitude.functions[0] := rfl
  have hargs : (#[-5] : Array Int64).size = magnitude.functions[0].argCount := rfl
  obtain ⟨hends, honce, hdepth⟩ :=
    runWithArgs_straight haccepted hloopFree hacyclic .initial hfunction hargs
  exact ⟨hends, fun _ _ _ _ hsame => (honce _ _ _ _ hsame).2, hdepth⟩

end Machine
end TieredVM
