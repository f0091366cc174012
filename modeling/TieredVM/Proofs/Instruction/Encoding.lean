import Mathlib.Data.List.Basic
import Mathlib.Tactic.Common
import TieredVM.Instruction.Listing
set_option autoImplicit false

namespace TieredVM

theorem append_prefix_drop_iff {α : Type} (a b l : List α) (n : Nat) :
    a ++ b <+: l.drop n ↔ a <+: l.drop n ∧ b <+: l.drop (n + a.length) := by
  constructor
  · intro h
    obtain ⟨tail, h⟩ := h
    refine ⟨⟨b ++ tail, by rw [← h, List.append_assoc]⟩, ⟨tail, ?_⟩⟩
    rw [← List.drop_drop, ← h, List.append_assoc, List.drop_left]
  · intro h
    obtain ⟨⟨s, hs⟩, ⟨t, ht⟩⟩ := h
    refine ⟨t, ?_⟩
    rw [← List.drop_drop, ← hs, List.drop_left] at ht
    rw [List.append_assoc, ht, hs]

theorem cons_prefix_drop_iff {α : Type} (x : α) (b l : List α) (n : Nat) :
    x :: b <+: l.drop n ↔ l[n]? = some x ∧ b <+: l.drop (n + 1) := by
  have h := append_prefix_drop_iff [x] b l n
  rw [List.singleton_append, List.length_singleton] at h
  rw [h]
  refine and_congr_left fun _ => ?_
  cases hd : l.drop n with
  | nil =>
    have hn : l.length ≤ n := List.drop_eq_nil_iff.1 hd
    simp [List.getElem?_eq_none hn]
  | cons y tail =>
    have hy : l[n]? = some y := by rw [← List.head?_drop, hd]; rfl
    simp [hy, eq_comm]

theorem operandWord?_eq_some_iff {code : Array UInt8} {offset index : Nat} {word : Int64} :
    operandWord? code offset index = some word ↔
      Word.toBytes word <+: code.toList.drop (offset + (1 + index * 8)) := by
  unfold operandWord?
  generalize offset + (1 + index * 8) = start
  have hx : (code.extract start (start + 8)).toList = (code.toList.drop start).take 8 := by
    simp
  have hlen : (code.toList.drop start).length = code.size - start := by simp
  simp only [hx]
  split
  · rename_i hs
    have h8 : ((code.toList.drop start).take 8).length = 8 := by
      rw [List.length_take, hlen]
      omega
    constructor
    · intro h
      rw [← Option.some.inj h, Word.toBytes_ofBytes h8]
      exact List.take_prefix 8 _
    · intro h
      have ht := List.prefix_iff_eq_take.1 h
      rw [Word.length_toBytes] at ht
      rw [← ht, Word.ofBytes_toBytes]
  · rename_i hs
    refine ⟨fun h => (Option.some_ne_none _ h.symm).elim, fun h => ?_⟩
    have hl := h.length_le
    rw [Word.length_toBytes, hlen] at hl
    omega

theorem operandWord?_eq_none_iff {code : Array UInt8} {offset index : Nat} :
    operandWord? code offset index = none ↔ code.size < offset + (1 + index * 8) + 8 := by
  simp only [operandWord?, ite_eq_right_iff, reduceCtorEq, imp_false, Nat.not_le]

namespace Instruction

theorem ofWords?_eq_some_iff {instr : Instruction} {word : Nat → Option Int64} :
    ofWords? instr.opcode word = some instr ↔
      ∀ k w, instr.operands[k]? = some w → word k = some w := by
  have h1 : ∀ v : Int64, (∀ k w, [v][k]? = some w → word k = some w) ↔
      word 0 = some v := by
    intro v
    refine ⟨fun h => h 0 v rfl, fun h k w hk => ?_⟩
    cases k with
    | zero => cases hk; exact h
    | succ k => simp at hk
  have h2 : ∀ u v : Int64, (∀ k w, [u, v][k]? = some w → word k = some w) ↔
      word 0 = some u ∧ word 1 = some v := by
    intro u v
    refine ⟨fun h => ⟨h 0 u rfl, h 1 v rfl⟩, fun h k w hk => ?_⟩
    cases k with
    | zero => cases hk; exact h.1
    | succ k =>
      cases k with
      | zero => cases hk; exact h.2
      | succ k => simp at hk
  cases instr with
  | binary op => cases op <;> simp [opcode, BinaryOp.opcode, ofWords?, operands]
  | branch condition target =>
    cases condition <;> simp [opcode, Condition.opcode, ofWords?, operands, h1]
  | call function args => simp [opcode, ofWords?, operands, h2, Option.bind_eq_some_iff]
  | _ => simp [opcode, ofWords?, operands, h1]

theorem operands_read_iff {code : Array UInt8} {offset : Nat} {instr : Instruction} :
    (∀ k w, instr.operands[k]? = some w → operandWord? code offset k = some w) ↔
      instr.operands.flatMap Word.toBytes <+: code.toList.drop (offset + 1) := by
  have hle : instr.operands.length ≤ 2 := by cases instr <;> simp [operands]
  rcases hops : instr.operands with _ | ⟨u, _ | ⟨v, _ | ⟨w, rest⟩⟩⟩
  · simp
  · constructor
    · intro h
      have h0 := operandWord?_eq_some_iff.1 (h 0 u rfl)
      simpa using h0
    · intro h k w hk
      cases k with
      | zero =>
        cases hk
        exact operandWord?_eq_some_iff.2 (by simpa using h)
      | succ k => simp at hk
  · have happ := append_prefix_drop_iff (Word.toBytes u) (Word.toBytes v) code.toList
      (offset + 1)
    rw [Word.length_toBytes] at happ
    simp only [List.flatMap_cons, List.flatMap_nil, List.append_nil, happ]
    constructor
    · intro h
      exact ⟨operandWord?_eq_some_iff.1 (h 0 u rfl), operandWord?_eq_some_iff.1 (h 1 v rfl)⟩
    · intro h k w hk
      rcases k with _ | _ | k
      · cases hk
        exact operandWord?_eq_some_iff.2 h.1
      · cases hk
        exact operandWord?_eq_some_iff.2 h.2
      · simp at hk
  · rw [hops] at hle
    simp at hle

/-- An instruction is read at an offset exactly where its encoding stands. -/
theorem decode_eq_ok_iff {code : Array UInt8} {offset : Nat} {instr : Instruction} :
    decode code offset = .ok instr ↔ instr.encode <+: code.toList.drop offset := by
  rw [encode, cons_prefix_drop_iff, ← operands_read_iff, ← ofWords?_eq_some_iff,
    Array.getElem?_toList]
  unfold decode
  cases hb : code[offset]? with
  | none => simp
  | some byte =>
    cases hop : Opcode.ofByte? byte with
    | none =>
      have hne : byte ≠ instr.opcode.toByte := by
        intro heq
        simp [heq] at hop
      simp [hop, hne]
    | some op =>
      have hbyte := Opcode.toByte_of_ofByte? hop
      simp only [hop, Option.some.injEq]
      constructor
      · intro h
        cases hw : ofWords? op (operandWord? code offset) with
        | none => simp [hw] at h
        | some found =>
          simp only [hw, Except.ok.injEq] at h
          subst found
          have ho := ofWords?_opcode hw
          rw [ho]
          exact ⟨hbyte.symm, hw⟩
      · intro h
        obtain ⟨rfl, hw⟩ := h
        rw [Opcode.ofByte?_toByte] at hop
        cases hop
        simp [hw]

theorem offset_add_le_of_decode {code : Array UInt8} {offset : Nat} {instr : Instruction}
    (h : decode code offset = .ok instr) : offset + instr.encodedLength ≤ code.size := by
  have hl := (decode_eq_ok_iff.1 h).length_le
  have hpos := instr.encodedLength_pos
  rw [length_encode, List.length_drop, Array.length_toList] at hl
  omega

theorem drop_of_decode {code : Array UInt8} {offset : Nat} {instr : Instruction}
    (h : decode code offset = .ok instr) : code.toList.drop offset =
      instr.encode ++ code.toList.drop (offset + instr.encodedLength) := by
  obtain ⟨tail, ht⟩ := decode_eq_ok_iff.1 h
  rw [← List.drop_drop, ← ht, ← length_encode, List.drop_left]

theorem opcode_of_decode {code : Array UInt8} {offset : Nat} {instr : Instruction}
    (h : decode code offset = .ok instr) :
    code[offset]?.bind Opcode.ofByte? = some instr.opcode := by
  have hp := decode_eq_ok_iff.1 h
  rw [encode, cons_prefix_drop_iff, Array.getElem?_toList] at hp
  rw [hp.1, Option.bind_some, Opcode.ofByte?_toByte]

theorem exists_missing_of_ofWords? {op : Opcode} {word : Nat → Option Int64}
    (h : ofWords? op word = none) : ∃ k < op.operandCount, word k = none := by
  cases op with
  | pushConstant | pushArg | pushLocal | popLocal | jmp | jmpe | jmpl | jmpg | printString =>
    exact ⟨0, by decide, by simpa [ofWords?] using h⟩
  | call =>
    cases hfirst : word 0 with
    | none => exact ⟨0, by decide, hfirst⟩
    | some first => exact ⟨1, by decide, by simpa [ofWords?, hfirst] using h⟩
  | _ => cases h

theorem unknown_of_decode {code : Array UInt8} {offset place : Nat} {byte : UInt8}
    (h : decode code offset = .error (.unknownOpcode place byte)) :
    place = offset ∧ code[offset]? = some byte ∧ Opcode.ofByte? byte = none := by
  unfold decode at h
  cases hbyte : code[offset]? with
  | none => simp [hbyte] at h
  | some found =>
    cases hop : Opcode.ofByte? found with
    | none =>
      simp only [hbyte, hop, Except.error.injEq, DecodeError.unknownOpcode.injEq] at h
      exact ⟨h.1.symm, by rw [h.2], h.2 ▸ hop⟩
    | some op =>
      simp only [hbyte, hop] at h
      split at h <;> cases h

theorem size_lt_of_decode {code : Array UInt8} {offset place : Nat} {op : Opcode}
    (h : decode code offset = .error (.truncated place op)) :
    place = offset ∧ code.size < offset + op.encodedLength ∧
      (offset < code.size → code[offset]?.bind Opcode.ofByte? = some op) := by
  unfold decode at h
  cases hbyte : code[offset]? with
  | none =>
    simp only [hbyte, Except.error.injEq, DecodeError.truncated.injEq] at h
    obtain ⟨rfl, rfl⟩ := h
    have hle := Array.getElem?_eq_none_iff.1 hbyte
    exact ⟨rfl, Nat.lt_succ_of_le hle, fun hlt => absurd hlt (Nat.not_lt.2 hle)⟩
  | some byte =>
    cases hop : Opcode.ofByte? byte with
    | none => simp [hbyte, hop] at h
    | some found =>
      simp only [hbyte, hop] at h
      split at h
      · rename_i hwords
        cases h
        obtain ⟨k, hk, hmissing⟩ := exists_missing_of_ofWords? hwords
        refine ⟨rfl, ?_, fun _ => by rw [Option.bind_some, hop]⟩
        have hshort := operandWord?_eq_none_iff.1 hmissing
        rw [Opcode.encodedLength]
        omega
      · cases h

theorem offset_of_decode {code : Array UInt8} {offset : Nat} {error : DecodeError}
    (h : decode code offset = .error error) : error.offset = offset := by
  cases error with
  | unknownOpcode place byte => exact (unknown_of_decode h).1
  | truncated place op => exact (size_lt_of_decode h).1

end Instruction

end TieredVM
