import TieredVM.Machine.Interpreter
import TieredVM.Machine.Threaded
import TieredVM.Proofs.Except
import TieredVM.Proofs.Instruction.Encoding
import TieredVM.Proofs.Word
set_option autoImplicit false

namespace TieredVM

namespace Instruction

/-- Runs an instruction at a site, where `next` is the place after it and `goto` tells the place to
which a target leads. -/
def perform (program : Program) (site : Site) (next : Nat) (goto : Int64 → Option Nat)
    (frame : Frame) : Instruction → Except Stop Request
  | .nop => .ok (.proceed next frame)
  | .pushConstant value => do
    let frame ← site.grant (frame.push value)
    return .proceed next frame
  | .pushArg index => do
    let index ← site.require (Word.toIndex? index)
    let value ← site.grant (frame.arg index)
    let frame ← site.grant (frame.push value)
    return .proceed next frame
  | .pushLocal slot => do
    let slot ← site.require (Word.toIndex? slot)
    let value ← site.grant (frame.local? slot)
    let frame ← site.grant (frame.push value)
    return .proceed next frame
  | .pop => do
    let (_, frame) ← site.grant frame.pop
    return .proceed next frame
  | .popLocal slot => do
    let slot ← site.require (Word.toIndex? slot)
    let (value, frame) ← site.grant frame.pop
    let frame ← site.grant (frame.setLocal slot value)
    return .proceed next frame
  | .dup => do
    let value ← site.grant frame.peek
    let frame ← site.grant (frame.push value)
    return .proceed next frame
  | .binary op => do
    let (right, frame) ← site.grant frame.pop
    let (left, frame) ← site.grant frame.pop
    match op.apply left right with
    | none => throw (.fault (.divisionByZero site.function.name site.offset))
    | some value =>
      let frame ← site.grant (frame.push value)
      return .proceed next frame
  | .jump target => do
    let place ← site.require (goto target)
    return .proceed place frame
  | .branch condition target => do
    let place ← site.require (goto target)
    let (right, frame) ← site.grant frame.pop
    let (left, frame) ← site.grant frame.pop
    return .proceed (if condition.holds left right then place else next) frame
  | .call function args => do
    let function ← site.require (Word.toIndex? function)
    let args ← site.require (Word.toIndex? args)
    if args ≤ frame.depth then
      return .call function (frame.depth - args) next frame
    else
      throw site.corrupt
  | .ret => do
    let (value, _) ← site.grant frame.pop
    return .finish value
  | .printString id =>
    match (Word.toIndex? id).bind program.string? with
    | none => .error (.fault (.unknownString site.function.name site.offset id))
    | some text => .ok (.print text next frame)
  | .printInt64 => do
    let (value, frame) ← site.grant frame.pop
    return .print (Text.decimal value) next frame
  | .currentTime => .ok (.time next frame)
  | .halt => .error .halt

end Instruction

theorem Handler.table_eq_map : Handler.table = Opcode.all.map Handler.ofOpcode := by
  simp [table, Opcode.all, ofOpcode]

theorem Dispatch.handler?_eq_map (dispatch : Dispatch) (byte : UInt8) :
    dispatch.handler? byte = (Opcode.ofByte? byte).map Handler.ofOpcode := by
  cases dispatch with
  | switch => rfl
  | table => simp [handler?, Handler.table_eq_map, Opcode.ofByte?]

theorem interpret_dispatch (first second : Dispatch) : interpret first = interpret second := by
  funext program site frame
  simp [interpret, Dispatch.handler?_eq_map]

@[simp] theorem Site.grant_ok {α : Type} (site : Site) (value : α) :
    site.grant (.ok value) = .ok value := rfl

@[simp] theorem Site.require_some {α : Type} (site : Site) (value : α) :
    site.require (some value) = .ok value := rfl

theorem Site.word_zero (site : Site) :
    site.word 0 = site.require (operandWord? site.function.code site.offset 0) := rfl

theorem Site.word_one (site : Site) :
    site.word 1 = site.require (operandWord? site.function.code site.offset 1) := rfl

def Site.unreadable (site : Site) : DecodeError → Fault
  | .unknownOpcode offset byte => .unknownOpcode site.function.name offset byte
  | .truncated offset _ => .corruptFrame site.function.name offset

section Interpreter

variable {dispatch : Dispatch} {program : Program} (site : Site) {frame : Frame}

theorem interpret_of_getElem?_eq_none (h : site.function.code[site.offset]? = none) :
    interpret dispatch program site frame = .error site.corrupt := by
  simp [interpret, h, Site.require]

theorem interpret_eq_perform {instr : Instruction}
    (h : Instruction.decode site.function.code site.offset = .ok instr) :
    interpret dispatch program site frame =
      instr.perform program site (site.offset + instr.encodedLength) Word.toIndex? frame := by
  unfold Instruction.decode at h
  cases hbyte : site.function.code[site.offset]? with
  | none => simp [hbyte] at h
  | some byte =>
    cases hop : Opcode.ofByte? byte with
    | none => simp [hbyte, hop] at h
    | some op =>
      cases hwords : Instruction.ofWords? op (operandWord? site.function.code site.offset) with
      | none => simp [hbyte, hop, hwords] at h
      | some found =>
        simp only [hbyte, hop, hwords, Except.ok.injEq] at h
        subst h
        simp only [interpret, hbyte, Site.require, ok_bind, Dispatch.handler?_eq_map, hop,
          Option.map_some]
        cases op with
        | nop | pop | dup | add | sub | mul | div | mod | ret | printInt64 | currentTime | halt =>
          cases hwords
          rfl
        | call =>
          simp only [Instruction.ofWords?, Option.bind_eq_some_iff, Option.map_eq_some_iff]
            at hwords
          obtain ⟨function, hfunction, args, hargs, rfl⟩ := hwords
          simp only [Handler.ofOpcode, Handler.call, Site.index, Site.word_zero, Site.word_one,
            hfunction, hargs]
          rfl
        | _ =>
          simp only [Instruction.ofWords?, Option.map_eq_some_iff] at hwords
          obtain ⟨word, hword, rfl⟩ := hwords
          simp only [Handler.ofOpcode, Handler.pushConstant, Handler.pushArg, Handler.pushLocal,
            Handler.popLocal, Handler.jump, Handler.branch, Handler.printString, Site.index,
            Site.word_zero, hword]
          rfl

theorem interpret_of_decode_error {error : DecodeError}
    (h : Instruction.decode site.function.code site.offset = .error error) :
    interpret dispatch program site frame = .error (.fault (site.unreadable error)) := by
  unfold Instruction.decode at h
  cases hbyte : site.function.code[site.offset]? with
  | none =>
    simp only [hbyte, Except.error.injEq] at h
    subst h
    exact interpret_of_getElem?_eq_none site hbyte
  | some byte =>
    cases hop : Opcode.ofByte? byte with
    | none =>
      simp only [hbyte, hop, Except.error.injEq] at h
      subst h
      simp [interpret, hbyte, Site.require, Dispatch.handler?_eq_map, hop, Site.unreadable]
    | some op =>
      cases hwords : Instruction.ofWords? op (operandWord? site.function.code site.offset) with
      | some instr => simp [hbyte, hop, hwords] at h
      | none =>
        simp only [hbyte, hop, hwords, Except.error.injEq] at h
        subst h
        simp only [interpret, hbyte, Site.require, ok_bind, Dispatch.handler?_eq_map, hop,
          Option.map_some]
        cases op with
        | nop | pop | dup | add | sub | mul | div | mod | ret | printInt64 | currentTime | halt =>
          cases hwords
        | call =>
          -- A function that is there and negative is the same fault as arguments that are missing.
          cases hfunction : operandWord? site.function.code site.offset 0 with
          | none =>
            simp only [Handler.ofOpcode, Handler.call, Site.index, Site.word_zero, hfunction]
            rfl
          | some function =>
            simp only [Instruction.ofWords?, hfunction, Option.bind_some,
              Option.map_eq_none_iff] at hwords
            simp only [Handler.ofOpcode, Handler.call, Site.index, Site.word_zero, Site.word_one,
              hfunction, hwords, Site.require, ok_bind]
            cases Word.toIndex? function <;> rfl
        | _ =>
          simp only [Instruction.ofWords?, Option.map_eq_none_iff] at hwords
          simp only [Handler.ofOpcode, Handler.pushConstant, Handler.pushArg, Handler.pushLocal,
            Handler.popLocal, Handler.jump, Handler.branch, Handler.printString, Site.index,
            Site.word_zero, hwords]
          rfl

end Interpreter

namespace ThreadedCode

theorem index_eq_ok_iff {function : Function} {offset n : Nat} {value : Int64} :
    index function offset value = .ok n ↔ Word.toIndex? value = some n := by
  unfold index
  cases Word.toIndex? value <;> simp

def goto? (items : List (Nat × Instruction)) (value : Int64) : Option Nat :=
  (Word.toIndex? value).bind (opNumber? items)

theorem target_eq_ok_iff {function : Function} {items : List (Nat × Instruction)} {offset n : Nat}
    {value : Int64} :
    target function items offset value = .ok n ↔ goto? items value = some n := by
  unfold target goto?
  cases (Word.toIndex? value).bind (opNumber? items) <;> simp

section

variable {program : Program} {function : Function} {items : List (Nat × Instruction)}
  {offset : Nat} {instr : Instruction}

theorem translateInstr_eq_none_iff :
    translateInstr program function items offset instr = .ok none ↔ instr = .nop := by
  cases instr with
  | call callee args =>
    simp only [translateInstr, bind_eq_ok_iff, reduceCtorEq, iff_false, not_exists, not_and]
    intro n _ h
    cases hf : program.function? n with
    | none => simp [hf] at h
    | some found => simp [hf, bind_eq_ok_iff] at h
  | _ => simp [translateInstr, bind_eq_ok_iff]

theorem runOp_eq_perform {op : Op}
    (h : translateInstr program function items offset instr = .ok (some op))
    (site : Site) (next : Nat) (frame : Frame) :
    runOp program site next op frame = instr.perform program site next (goto? items) frame := by
  cases instr with
  | pushArg word | pushLocal word | popLocal word =>
    simp only [translateInstr, bind_eq_ok_iff, index_eq_ok_iff, pure_eq_ok, Except.ok.injEq,
      Option.some.injEq] at h
    obtain ⟨n, hn, rfl⟩ := h
    simp only [runOp, Instruction.perform, hn, Site.require, ok_bind]
  | jump target | branch condition target =>
    simp only [translateInstr, bind_eq_ok_iff, target_eq_ok_iff, pure_eq_ok, Except.ok.injEq,
      Option.some.injEq] at h
    obtain ⟨n, hn, rfl⟩ := h
    simp only [runOp, Instruction.perform, hn, Site.require, ok_bind, pure_eq_ok]
  | call callee args =>
    simp only [translateInstr, bind_eq_ok_iff, index_eq_ok_iff] at h
    obtain ⟨n, hn, h⟩ := h
    cases hf : program.function? n with
    | none => simp [hf] at h
    | some found =>
      simp only [hf, bind_eq_ok_iff, index_eq_ok_iff, pure_eq_ok, Except.ok.injEq,
        Option.some.injEq] at h
      obtain ⟨m, hm, rfl⟩ := h
      simp only [runOp, Instruction.perform, hn, hm, Site.require, ok_bind, pure_eq_ok,
        throw_eq_error]
  | printString id =>
    simp only [translateInstr, bind_eq_ok_iff, index_eq_ok_iff, pure_eq_ok, Except.ok.injEq,
      Option.some.injEq] at h
    obtain ⟨n, hn, rfl⟩ := h
    cases htext : program.string? n <;>
      simp only [runOp, Instruction.perform, hn, Option.bind_some, htext,
        Word.ofIndex_of_toIndex? hn]
  | nop => cases h
  | _ =>
    cases h
    rfl

theorem goto?_of_translateInstr {op? : Option Op} {target : Int64}
    (h : translateInstr program function items offset instr = .ok op?)
    (ht : instr.jumpTarget? = some target) : ∃ n, goto? items target = some n := by
  cases instr with
  | jump place | branch condition place =>
    cases ht
    simp only [translateInstr, bind_eq_ok_iff, target_eq_ok_iff] at h
    obtain ⟨n, hn, -⟩ := h
    exact ⟨n, hn⟩
  | _ => cases ht

end

end ThreadedCode

namespace Request

inductive Matches (places : Nat → Nat → Prop) : Request → Request → Prop
  | proceed {n p : Nat} (frame : Frame) :
    places n p → Matches places (.proceed n frame) (.proceed p frame)
  | print {n p : Nat} (text : List UInt8) (frame : Frame) :
    places n p → Matches places (.print text n frame) (.print text p frame)
  | time {n p : Nat} (frame : Frame) :
    places n p → Matches places (.time n frame) (.time p frame)
  | call {n p : Nat} (function base : Nat) (frame : Frame) :
    places n p → Matches places (.call function base n frame) (.call function base p frame)
  | finish (value : Int64) : Matches places (.finish value) (.finish value)

theorem Matches.refl {places : Nat → Nat → Prop} (h : ∀ n, places n n) (request : Request) :
    Matches places request request := by
  cases request with
  | proceed next frame => exact .proceed frame (h next)
  | print text next frame => exact .print text frame (h next)
  | time next frame => exact .time frame (h next)
  | call function base next frame => exact .call function base frame (h next)
  | finish value => exact .finish value

end Request

inductive Served (places : Nat → Nat → Prop) :
    Except Stop Request → Except Stop Request → Prop
  | stop (reason : Stop) : Served places (.error reason) (.error reason)
  | request {first second : Request} :
    first.Matches places second → Served places (.ok first) (.ok second)

theorem Served.bind {α : Type} {places : Nat → Nat → Prop} (x : Except Stop α)
    {f g : α → Except Stop Request} (h : ∀ a, Served places (f a) (g a)) :
    Served places (x >>= f) (x >>= g) := by
  cases x with
  | error reason => exact .stop reason
  | ok a => exact h a

/-- If places and targets match, an instruction does the same at both. -/
theorem Instruction.perform_served {places : Nat → Nat → Prop} {program : Program} {site : Site}
    {n p : Nat} {goto goto' : Int64 → Option Nat} {instr : Instruction}
    (hnext : places n p)
    (hjump : ∀ target, instr.jumpTarget? = some target →
      ∃ m q, goto target = some m ∧ goto' target = some q ∧ places m q)
    (frame : Frame) :
    Served places (instr.perform program site n goto frame)
      (instr.perform program site p goto' frame) := by
  cases instr with
  | nop => exact .request (.proceed frame hnext)
  | pushConstant value =>
    exact .bind _ fun frame => .request (.proceed frame hnext)
  | pushArg word | pushLocal word =>
    refine .bind _ fun index => .bind _ fun value => .bind _ fun frame => ?_
    exact .request (.proceed frame hnext)
  | pop =>
    exact .bind _ fun popped => .request (.proceed popped.2 hnext)
  | popLocal word =>
    refine .bind _ fun slot => .bind _ fun popped => .bind _ fun frame => ?_
    exact .request (.proceed frame hnext)
  | dup =>
    refine .bind _ fun value => .bind _ fun frame => ?_
    exact .request (.proceed frame hnext)
  | binary op =>
    refine .bind _ fun right => .bind _ fun left => ?_
    cases h : op.apply left.1 right.1 with
    | none =>
      simp only [h]
      exact .stop _
    | some value =>
      simp only [h]
      exact .bind _ fun frame => .request (.proceed frame hnext)
  | jump target =>
    obtain ⟨m, q, hm, hq, hplaces⟩ := hjump target rfl
    simp only [perform, hm, hq, Site.require, ok_bind]
    exact .request (.proceed frame hplaces)
  | branch condition target =>
    obtain ⟨m, q, hm, hq, hplaces⟩ := hjump target rfl
    simp only [perform, hm, hq, Site.require, ok_bind]
    refine .bind _ fun right => .bind _ fun left => .request (.proceed left.2 ?_)
    split
    · exact hplaces
    · exact hnext
  | call function args =>
    refine .bind _ fun function => .bind _ fun args => ?_
    split
    · exact .request (.call function _ frame hnext)
    · exact .stop _
  | ret => exact .bind _ fun popped => .request (.finish popped.1)
  | printString id =>
    simp only [perform]
    cases (Word.toIndex? id).bind program.string? with
    | none => exact .stop _
    | some text => exact .request (.print text frame hnext)
  | printInt64 => exact .bind _ fun popped => .request (.print _ popped.2 hnext)
  | currentTime => exact .request (.time frame hnext)
  | halt => exact .stop _

end TieredVM
