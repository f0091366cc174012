import TieredVM.Proofs.Expression.Evaluation
import TieredVM.Proofs.Machine.Follow
import TieredVM.Proofs.Machine.Stands
import TieredVM.Proofs.Session.Reached
set_option autoImplicit false

namespace TieredVM

namespace Machine

variable {machine : Machine} {α β : Type}

/-- Where the evaluation comes to an end, the run comes to where `reaches` holds of the value, or
it ends with the division by zero. -/
structure Delivers (machine : Machine) (progress : Progress) (x : Evaluation α)
    (reaches : α → Progress → Prop) : Prop where
  value : ∀ a, x.run = some (.ok a) → ∃ count, reaches a (machine.advance count progress)
  zero : ∀ zero, x.run = some (.error zero) → ∃ count state,
    machine.advance count progress = .ended (ZeroDivision.outcome (.error zero)) state

variable {progress : Progress} {x : Evaluation α} {reaches : α → Progress → Prop}

theorem delivers_pure {a : α} (h : reaches a progress) :
    machine.Delivers progress (pure a) reaches where
  value b hb := by
    cases hb
    exact ⟨0, by simpa using h⟩
  zero zero hzero := by cases hzero

theorem delivers_throw {zero : ZeroDivision} {state : State} (count : Nat)
    (h : machine.advance count progress = .ended (ZeroDivision.outcome (.error zero)) state) :
    machine.Delivers progress (throw zero) reaches where
  value a ha := by cases ha
  zero zero hzero := by
    cases hzero
    exact ⟨count, state, h⟩

theorem Delivers.of_advance (count : Nat)
    (h : machine.Delivers (machine.advance count progress) x reaches) :
    machine.Delivers progress x reaches where
  value a ha := by
    obtain ⟨later, hlater⟩ := h.value a ha
    exact ⟨count + later, by rwa [advance_add]⟩
  zero zero hzero := by
    obtain ⟨later, state, hlater⟩ := h.zero zero hzero
    exact ⟨count + later, state, by rwa [advance_add]⟩

theorem Delivers.bind {f : α → Evaluation β} {reaches' : β → Progress → Prop}
    (h : machine.Delivers progress x reaches)
    (hf : ∀ a next, reaches a next → machine.Delivers next (f a) reaches') :
    machine.Delivers progress (x >>= f) reaches' := by
  cases hx : x.run with
  | none =>
    have hnone : (x >>= f).run = none := Evaluation.bind_eq_none hx
    constructor <;> simp [hnone]
  | some result =>
    cases result with
    | error zero =>
      obtain ⟨count, state, hended⟩ := h.zero zero hx
      rw [Evaluation.bind_eq_throw hx]
      exact delivers_throw count hended
    | ok a =>
      obtain ⟨count, hreaches⟩ := h.value a hx
      rw [Evaluation.bind_eq_apply hx]
      exact (hf a _ hreaches).of_advance count

theorem Delivers.extend {reaches' : α → Progress → Prop} (h : machine.Delivers progress x reaches)
    (hnext : ∀ a next, reaches a next → ∃ count, reaches' a (machine.advance count next)) :
    machine.Delivers progress x reaches' where
  value a ha := by
    obtain ⟨count, hcount⟩ := h.value a ha
    obtain ⟨later, hlater⟩ := hnext a _ hcount
    exact ⟨count + later, by rwa [advance_add]⟩
  zero := h.zero

/-- Calls of a function with as many arguments come to what the evaluation comes to. -/
def Answers (machine : Machine) (id argCount : Nat) (value : List Int64 → Evaluation Int64) :
    Prop :=
  ∀ (args : Array Int64) (callers : List Caller) (state : State), args.size = argCount →
    state.tiers = (State.initial machine.program).tiers →
    machine.plain.Delivers (machine.plain.startCall id args callers state) (value args.toList)
      fun result next => ∃ after : State,
        after.tiers = (State.initial machine.program).tiers ∧ next = finish result callers after

end Machine

namespace Expr

open Machine

variable {machine : Machine} {function : Function} {args : Array Int64} {callers : List Caller}
  {locals : List Int64} {call : Nat → List Int64 → Evaluation Int64}

def Evaluates (machine : Machine) (function : Function) (args : Array Int64)
    (callers : List Caller) (locals : List Int64) (call : Nat → List Int64 → Evaluation Int64)
    (e : Expr) : Prop :=
  ∀ (offset : Nat) (stack : List Int64) (progress : Progress), function.Carries offset e.emit →
    stack.length + e.depth ≤ function.maxStackDepth →
    progress.Stands machine.program function args callers offset stack locals →
    machine.plain.Delivers progress (e.eval call function.name args.toList offset) fun value next =>
      next.Stands machine.program function args callers (offset + e.size) (stack ++ [value]) locals

theorem evaluates_constant (value : Int64) :
    Evaluates machine function args callers locals call (.constant value) := by
  intro offset stack progress hcode hroom hstands
  refine (delivers_pure ?_).of_advance 1
  exact stands_pushConstant hstands hroom (Function.carries_singleton_iff.1 hcode)

theorem evaluates_argument {index : Nat} (hlt : index < args.size) (hsmall : index < 2 ^ 63) :
    Evaluates machine function args callers locals call (.argument index) := by
  intro offset stack progress hcode hroom hstands
  refine (delivers_pure ?_).of_advance 1
  have hvalue : args[index]? = some (args.toList.getD index 0) := by
    simp [hlt]
  exact stands_pushArg hstands hroom hsmall hvalue (Function.carries_singleton_iff.1 hcode)

theorem evaluates_binary {left right : Expr} (op : BinaryOp)
    (hl : Evaluates machine function args callers locals call left)
    (hr : Evaluates machine function args callers locals call right) :
    Evaluates machine function args callers locals call (.binary op left right) := by
  intro offset stack progress hcode hroom hstands
  have hdepth : (Expr.binary op left right).depth = max left.depth (1 + right.depth) := rfl
  obtain ⟨hoperands, hop⟩ := Function.carries_append_iff.1 hcode
  obtain ⟨hleft, hright⟩ := Function.carries_append_iff.1 hoperands
  rw [List.flatMap_append, List.length_append, ← Nat.add_assoc] at hop
  have hdecode := Function.carries_singleton_iff.1 hop
  refine (hl offset stack progress hleft (by omega) hstands).bind fun a next hnext => ?_
  refine (hr _ _ next hright (by simp; omega) hnext).bind fun b last hlast => ?_
  rw [List.append_assoc] at hlast
  have hpos := left.depth_pos
  cases hvalue : op.denote a b with
  | none =>
    simp only
    obtain ⟨state, hended⟩ :=
      ended_binary hlast hdecode ((op.apply_eq_denote a b).trans hvalue)
    exact delivers_throw 1 hended
  | some value =>
    have hstands := stands_binary hlast hdecode ((op.apply_eq_denote a b).trans hvalue) (by omega)
    have hsize : (Expr.binary op left right).size =
        left.size + right.size + (Instruction.binary op).encodedLength := by
      simp [size, emit, Instruction.length_encode, Nat.add_assoc]
    rw [hsize, ← Nat.add_assoc, ← Nat.add_assoc]
    refine (delivers_pure ?_).of_advance 1
    exact hstands

theorem evaluates_all {operands : List Expr}
    (h : ∀ operand ∈ operands, Evaluates machine function args callers locals call operand)
    {offset : Nat} {stack : List Int64} {progress : Progress}
    (hcode : function.Carries offset (emitAll operands))
    (hroom : depthAbove stack.length operands ≤ function.maxStackDepth)
    (hstands : progress.Stands machine.program function args callers offset stack locals) :
    machine.plain.Delivers progress (evalAll call function.name args.toList operands offset)
      fun values next => values.length = operands.length ∧
        next.Stands machine.program function args callers
          (offset + ((emitAll operands).flatMap Instruction.encode).length) (stack ++ values)
          locals := by
  induction operands generalizing offset stack progress with
  | nil => exact delivers_pure ⟨rfl, by simpa [emitAll] using hstands⟩
  | cons operand operands ih =>
    obtain ⟨hfirst, hrest⟩ := Function.carries_append_iff.1 hcode
    rw [depthAbove_cons] at hroom
    refine (h operand List.mem_cons_self offset stack progress hfirst (by omega) hstands).bind
      fun value next hnext => ?_
    refine (ih (fun other hother => h other (List.mem_cons_of_mem _ hother)) hrest (by simp; omega)
      hnext).bind fun values last hlast => ?_
    obtain ⟨hlength, hlast⟩ := hlast
    refine delivers_pure ⟨by simp [hlength], ?_⟩
    rw [emitAll, List.flatMap_append, List.length_append, ← Nat.add_assoc,
      List.append_cons]
    exact hlast

theorem evaluates_call {callee : Nat} {operands : List Expr} (hcallee : callee < 2 ^ 63)
    (hlength : operands.length < 2 ^ 63)
    (h : ∀ operand ∈ operands, Evaluates machine function args callers locals call operand)
    (hanswers : machine.Answers callee operands.length (call callee)) :
    Evaluates machine function args callers locals call (.call callee operands) := by
  intro offset stack progress hcode hroom hstands
  have hdepth : (Expr.call callee operands).depth = max 1 (depthAbove 0 operands) := rfl
  have hmax := max_depthAbove stack.length operands
  obtain ⟨hoperands, hcall⟩ := Function.carries_append_iff.1 hcode
  have hdecode := Function.carries_singleton_iff.1 hcall
  refine (evaluates_all h hoperands (by omega) hstands).bind fun values next hnext => ?_
  obtain ⟨hvalues, hnext⟩ := hnext
  rw [← hvalues] at hdecode hlength hanswers
  obtain ⟨caller, state, htiers, hstart, hresume⟩ :=
    startCall_of_stands hnext hcallee hlength (by omega) hdecode
  have hanswer := hanswers values.toArray (caller :: callers) state (by simp) htiers
  rw [← hstart] at hanswer
  refine (hanswer.extend fun value last hlast => ⟨0, ?_⟩).of_advance 1
  obtain ⟨after, hafter, rfl⟩ := hlast
  have hsize : (Expr.call callee operands).size =
      ((emitAll operands).flatMap Instruction.encode).length +
        (Instruction.call (Word.ofIndex callee) (Word.ofIndex values.length)).encodedLength := by
    simp [size, emit, Instruction.length_encode, hvalues]
  rw [advance_zero, hsize, ← Nat.add_assoc]
  exact hresume value after hafter

theorem Scoped.evaluates {arity? : Nat → Option Nat} {e : Expr} (h : e.Scoped arity? args.size)
    (hanswers : ∀ callee argCount, arity? callee = some argCount →
      machine.Answers callee argCount (call callee)) :
    Evaluates machine function args callers locals call e := by
  induction h with
  | constant value => exact evaluates_constant value
  | argument hlt hsmall => exact evaluates_argument hlt hsmall
  | binary op _ _ ihl ihr => exact evaluates_binary op ihl ihr
  | call harity hcallee hlength _ ih =>
    exact evaluates_call hcallee hlength ih (hanswers _ _ harity)

end Expr

namespace Image.Expresses

open Machine

variable {image : Image} {bodies : Nat → Expr} {machine : Machine} {entry : FunctionEntry}

theorem answers (h : image.Expresses bodies) (hverify : image.verify = .ok machine.program)
    (nesting : Nat) (hentry : entry ∈ image.functions) :
    machine.Answers entry.id entry.argCount (image.evaluate bodies nesting entry.id) := by
  -- The calls in the body have less room, and any callers: so the callers are generalised as well.
  induction nesting generalizing entry with
  | zero =>
    intro args callers state hsize htiers
    constructor <;> simp [evaluate]
  | succ nesting ih =>
    intro args callers state hsize htiers
    have hfound := h.lookup_iff.2 ⟨hentry, rfl⟩
    have hcalls : ∀ callee argCount, (image.function? callee).map (·.argCount) = some argCount →
        machine.Answers callee argCount (image.evaluate bodies nesting callee) := by
      intro callee argCount harity
      obtain ⟨target, htarget, rfl⟩ := Option.map_eq_some_iff.1 harity
      obtain ⟨hmem, rfl⟩ := h.lookup_iff.1 htarget
      exact ih hmem
    let function := (bodies entry.id).toFunction entry
    have hcode : function.Carries 0 ((bodies entry.id).emit ++ [.ret]) := by
      simp [Function.Carries, function, Expr.toFunction, h.code entry hentry, Expr.code]
    obtain ⟨hbody, hret⟩ := Function.carries_append_iff.1 hcode
    have hscoped := h.inScope entry hentry
    rw [← hsize] at hscoped
    have hstands := stands_startCall htiers (h.function?_eq hverify hentry) args callers
    have hroom : (bodies entry.id).depth ≤ function.maxStackDepth := Nat.le_refl _
    have hdelivers := hscoped.evaluates hcalls 0 [] _ hbody (by simpa using hroom) hstands
    simp only [evaluate, hfound]
    refine hdelivers.extend fun value next hnext => ⟨1, ?_⟩
    obtain ⟨after, hafter, hfinish⟩ :=
      finish_of_stands hnext (Function.carries_singleton_iff.1 hret)
    exact ⟨after, hafter, hfinish⟩

theorem exists_plain_ended (h : image.Expresses bodies)
    (hverify : image.verify = .ok machine.program) (hentry : entry ∈ image.functions)
    {args : Array Int64} (hsize : args.size = entry.argCount) {state : State}
    (htiers : state.tiers = (State.initial machine.program).tiers) {nesting : Nat}
    {result : Except ZeroDivision Int64}
    (hresult : (image.evaluate bodies nesting entry.id args.toList).run = some result) :
    ∃ count after, machine.plain.advance count (machine.plain.startWithArgs entry.id args state) =
      .ended (ZeroDivision.outcome result) after := by
  have hlisted : machine.plain.program.function? entry.id = _ := h.function?_eq hverify hentry
  have hstart : machine.plain.startWithArgs entry.id args state =
      machine.plain.startCall entry.id args [] state := by
    simp only [startWithArgs, hlisted]
    exact if_pos hsize
  have hanswers := h.answers hverify nesting hentry args [] state hsize htiers
  rw [hstart]
  cases result with
  | error zero => exact hanswers.zero zero hresult
  | ok value =>
    obtain ⟨count, after, -, hfinish⟩ := hanswers.value value hresult
    exact ⟨count, _, hfinish⟩

/-- Programs whose functions evaluate expressions are accepted, with as much stack for each function
as its expression needs. Without recursion their calls end on every machine, and with what the
evaluation comes to. -/
theorem computes (h : image.Expresses bodies) : ∃ program, image.verify = .ok program ∧
    (∀ entry ∈ image.functions,
      program.function? entry.id = some ((bodies entry.id).toFunction entry)) ∧
    (program.Acyclic → ∀ (machine : Machine) (frames : List FrameLink) (state : State),
      machine.program = program → machine.Reached frames state →
      ∀ entry ∈ image.functions, ∀ args : Array Int64, args.size = entry.argCount →
        ∃ result fuel final,
          (∀ nesting, image.functions.length ≤ nesting →
            (image.evaluate bodies nesting entry.id args.toList).run = some result) ∧
          machine.runWithArgs fuel entry.id args state =
            some (ZeroDivision.outcome result, final)) := by
  obtain ⟨program, hverify⟩ := h.exists_verify
  refine ⟨program, hverify, fun entry hentry => h.function?_eq hverify hentry, ?_⟩
  rintro hacyclic machine frames state rfl hreached entry hentry args hsize
  have hlisted := h.function?_eq hverify hentry
  have hroom := hacyclic.card_below_lt (Array.getElem?_eq_some_iff.1 hlisted).1
  rw [size_functions_of_verify hverify] at hroom
  obtain ⟨result, hresult⟩ := h.evaluate_defined hverify hacyclic hentry hroom args.toList
  have hbare : (state.bare machine.program).tiers = (State.initial machine.program).tiers := rfl
  obtain ⟨count, after, hended⟩ := h.exists_plain_ended hverify hentry hsize hbare hresult
  obtain ⟨fuel, final, hrun⟩ := exists_runWithArgs hreached.tiers hended
  refine ⟨result, fuel, final, fun nesting hnesting => ?_, hrun⟩
  exact evaluate_within hnesting entry.id args.toList result hresult

end Image.Expresses

def quotient : Nat → Expr
  | 0 => .binary .add (.constant 1) (.call 1 [.argument 0, .argument 1])
  | _ => .binary .div (.argument 0) (.argument 1)

def quotientImage : Image where
  name := "quotient"
  functions := [
    { name := "ratio", id := 1, argCount := 2, code := (quotient 1).code },
    { name := "main", id := 0, argCount := 2, code := (quotient 0).code }]
  strings := []

theorem expresses_quotientImage : quotientImage.Expresses quotient where
  ids := by decide
  code := by simp [quotientImage]
  inScope := by
    simp only [quotientImage, List.forall_mem_cons, List.not_mem_nil, false_implies, implies_true,
      and_true]
    refine ⟨.binary _ (.argument ?_ ?_) (.argument ?_ ?_), .binary _ (.constant 1)
      (.call rfl ?_ ?_ ?_)⟩ <;> try decide
    simp only [List.forall_mem_cons, List.not_mem_nil, false_implies, implies_true, and_true]
    exact ⟨.argument (by decide) (by decide), .argument (by decide) (by decide)⟩

theorem acyclic_quotientImage {program : Program} (hverify : quotientImage.verify = .ok program) :
    program.Acyclic := by
  refine Program.acyclic_of_lt fun caller callee hcalls => ?_
  obtain ⟨entry, hentry, rfl, hsmall, count, hmem⟩ :=
    (expresses_quotientImage.calls_iff hverify).1 hcalls
  simp only [quotientImage, List.mem_cons, List.not_mem_nil, or_false] at hentry
  rcases hentry with rfl | rfl
  · simp [quotient, Expr.emit] at hmem
  · simp only [quotient, Expr.emit, Expr.emitAll, List.mem_append, List.mem_singleton,
      List.not_mem_nil, reduceCtorEq, Instruction.call.injEq, false_or, or_false] at hmem
    have hone := Word.toIndex?_ofIndex hsmall
    rw [hmem.1, Word.toIndex?_ofIndex (by decide), Option.some.injEq] at hone
    exact hone ▸ Nat.one_pos

theorem computes_quotientImage : ∃ program, quotientImage.verify = .ok program ∧
    let machine : Machine := { program, config := { tiering := .tiered 1 } }
    (∃ fuel final, machine.runWithArgs fuel 0 #[7, 2] (State.initial program) =
      some (.ok 4, final)) ∧
    ∃ fuel final, machine.runWithArgs fuel 0 #[7, 0] (State.initial program) =
      some (.error (.fault (.divisionByZero "ratio" 18)), final) := by
  obtain ⟨program, hverify, -, hruns⟩ := Image.Expresses.computes expresses_quotientImage
  have hacyclic := acyclic_quotientImage hverify
  let machine : Machine := { program, config := { tiering := .tiered 1 } }
  have hmain : ⟨"main", 0, 2, (quotient 0).code⟩ ∈ quotientImage.functions := by
    simp [quotientImage]
  have hends : ∀ (args : Array Int64) (result : Except ZeroDivision Int64), args.size = 2 →
      (quotientImage.evaluate quotient 2 0 args.toList).run = some result →
      ∃ fuel final, machine.runWithArgs fuel 0 args (State.initial program) =
        some (ZeroDivision.outcome result, final) := by
    intro args result hsize hresult
    obtain ⟨found, fuel, final, hfound, hrun⟩ :=
      hruns hacyclic machine [] _ rfl .initial _ hmain args hsize
    have hsame : found = result := Option.some.inj ((hfound 2 (Nat.le_refl 2)).symm.trans hresult)
    exact ⟨fuel, final, hsame ▸ hrun⟩
  exact ⟨program, hverify, hends #[7, 2] (.ok 4) rfl (by decide),
    hends #[7, 0] (.error ⟨"ratio", 18⟩) rfl (by decide)⟩

end TieredVM
