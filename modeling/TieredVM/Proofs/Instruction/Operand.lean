import Mathlib.Data.List.Induction
import Mathlib.Data.Nat.Digits.Defs
import Mathlib.Tactic.Common
import TieredVM.Proofs.Except
import TieredVM.Proofs.Instruction.Encoding
/-!
Single operands of an instruction, by their numbers. Main statement: an operand is read as exact
arithmetic has it, but for numbers so large that eight times the number is no machine word. These
end the program, where no operand should have been found.
-/
set_option autoImplicit false

namespace TieredVM

namespace Word

def signed (bytes : List UInt8) : Int :=
  (BitVec.ofNat 64 (Nat.ofDigits 256 (bytes.map UInt8.toNat).reverse)).toInt

theorem ofDigits_eq_ofDigits_reverse (bytes : List UInt8) :
    ofDigits bytes = Nat.ofDigits 256 (bytes.map UInt8.toNat).reverse := by
  induction bytes using List.reverseRecOn with
  | nil => rfl
  | append_singleton bytes byte ih =>
    rw [ofDigits_concat, ih, List.map_append, List.reverse_append, List.map_singleton,
      List.reverse_singleton, List.singleton_append, Nat.ofDigits_cons]
    omega

theorem toInt_ofBytes (bytes : List UInt8) : (ofBytes bytes).toInt = signed bytes := by
  rw [signed, ← ofDigits_eq_ofDigits_reverse]
  rfl

def add (a b : UInt64) : Except Panic UInt64 :=
  if a.toNat + b.toNat < UInt64.size then .ok (a + b) else .error .overflow

def mul (a b : UInt64) : Except Panic UInt64 :=
  if a.toNat * b.toNat < UInt64.size then .ok (a * b) else .error .overflow

def checkedAdd? (a b : UInt64) : Option UInt64 := (add a b).toOption

theorem exists_add_eq {a b : UInt64} (h : a.toNat + b.toNat < UInt64.size) :
    ∃ sum, add a b = .ok sum ∧ sum.toNat = a.toNat + b.toNat :=
  ⟨a + b, if_pos h, by rw [UInt64.toNat_add, Nat.mod_eq_of_lt h]⟩

theorem exists_mul_eq {a b : UInt64} (h : a.toNat * b.toNat < UInt64.size) :
    ∃ product, mul a b = .ok product ∧ product.toNat = a.toNat * b.toNat :=
  ⟨a * b, if_pos h, by rw [UInt64.toNat_mul, Nat.mod_eq_of_lt h]⟩

theorem checkedAdd?_eq_none {a b : UInt64} (h : UInt64.size ≤ a.toNat + b.toNat) :
    checkedAdd? a b = none := by
  rw [checkedAdd?, add, if_neg (Nat.not_lt.2 h)]
  rfl

end Word

namespace Operand

/-- The code holds a word as the operand with a number of the instruction at an offset: eight bytes
lie there within the code, and the word is what they stand for. -/
structure Holds (code : Array UInt8) (offset index : Nat) (word : Int64) : Prop where
  within : offset + 1 + 8 * index + 8 ≤ code.size
  value : word.toInt = Word.signed
    (code.extract (offset + 1 + 8 * index) (offset + 1 + 8 * index + 8)).toList

/-- The operand as it is found with machine words. Only the last two sums are checked. -/
def inWords? (code : Array UInt8) (offset index : UInt64) : Except Panic (Option Int64) := do
  let scaled ← Word.mul index 8
  let distance ← Word.add 1 scaled
  return (Word.checkedAdd? offset distance).bind fun start =>
    (Word.checkedAdd? start 8).bind fun stop =>
      if stop.toNat ≤ code.size then
        some (Word.ofBytes (code.extract start.toNat stop.toNat).toList)
      else
        none

/-- An operand is read as exact arithmetic has it, and none where there is none. -/
def Exact (code : Array UInt8) (offset index : UInt64) : Prop :=
  ∃ found, operand? code offset.toNat index = .ok found ∧
    ∀ word, found = some word ↔ Holds code offset.toNat index.toNat word

variable {code : Array UInt8}

section Numbers

variable {offset index : Nat}

theorem operandWord?_eq_some_iff_holds {word : Int64} :
    operandWord? code offset index = some word ↔ Holds code offset index word := by
  simp only [operandWord?, Nat.mul_comm index, ← Nat.add_assoc]
  constructor
  · intro h
    split at h
    · rename_i hwithin
      rw [← Option.some.inj h]
      exact ⟨hwithin, Word.toInt_ofBytes _⟩
    · cases h
  · intro h
    rw [if_pos h.within, Option.some.injEq, ← Int64.toInt_inj, Word.toInt_ofBytes, h.value]

theorem operandWord?_eq_none_iff_size_lt : operandWord? code offset index = none ↔
    code.size < offset + 1 + 8 * index + 8 := by
  rw [operandWord?_eq_none_iff, Nat.mul_comm, ← Nat.add_assoc]

end Numbers

section Words

variable {offset index : UInt64}

theorem operand?_of_lt (h : index.toNat < 2 ^ 61) (offset : Nat) :
    operand? code offset index = .ok (operandWord? code offset index.toNat) := by
  have hsize : UInt64.size = 2 ^ 64 := rfl
  exact if_pos (by omega)

theorem operand?_of_le (h : 2 ^ 61 ≤ index.toNat) (offset : Nat) :
    operand? code offset index = .error .overflow := by
  have hsize : UInt64.size = 2 ^ 64 := rfl
  exact if_neg (by omega)

theorem operand?_eq_ok_iff {found : Option Int64} {offset : Nat} :
    operand? code offset index = .ok found ↔
      index.toNat < 2 ^ 61 ∧ operandWord? code offset index.toNat = found := by
  refine ⟨fun h => ?_, fun h => h.2 ▸ operand?_of_lt h.1 offset⟩
  rcases Nat.lt_or_ge index.toNat (2 ^ 61) with hlow | hhigh
  · exact ⟨hlow, Except.ok.inj ((operand?_of_lt hlow offset).symm.trans h)⟩
  · cases (operand?_of_le hhigh offset).symm.trans h

theorem operand?_eq_error_iff {offset : Nat} :
    operand? code offset index = .error .overflow ↔ 2 ^ 61 ≤ index.toNat := by
  refine ⟨fun h => Nat.not_lt.1 fun hlow => ?_, (operand?_of_le · offset)⟩
  cases (operand?_of_lt hlow offset).symm.trans h

theorem operandWord?_eq_checked (hsize : code.size < UInt64.size) {distance : UInt64}
    (hdistance : distance.toNat = 1 + index.toNat * 8) :
    operandWord? code offset.toNat index.toNat =
      (Word.checkedAdd? offset distance).bind fun start =>
        (Word.checkedAdd? start 8).bind fun stop =>
          if stop.toNat ≤ code.size then
            some (Word.ofBytes (code.extract start.toNat stop.toNat).toList)
          else
            none := by
  have height : (8 : UInt64).toNat = 8 := rfl
  rw [operandWord?, ← hdistance]
  rcases Nat.lt_or_ge (offset.toNat + distance.toNat) UInt64.size with hfits | hlarge
  · obtain ⟨start, hadd, hstart⟩ := Word.exists_add_eq hfits
    rw [Word.checkedAdd?, hadd, Except.toOption, Option.bind_some, ← hstart]
    rcases Nat.lt_or_ge (start.toNat + (8 : UInt64).toNat) UInt64.size with hfits | hlarge
    · obtain ⟨stop, hadd, hstop⟩ := Word.exists_add_eq hfits
      rw [Word.checkedAdd?, hadd, Except.toOption, Option.bind_some, hstop, height]
    · rw [Word.checkedAdd?_eq_none hlarge]
      exact if_neg (by omega)
  · rw [Word.checkedAdd?_eq_none hlarge]
    exact if_neg (by omega)

theorem operand?_eq_inWords? (hsize : code.size < UInt64.size) (offset index : UInt64) :
    operand? code offset.toNat index = inWords? code offset index := by
  have hone : (1 : UInt64).toNat = 1 := rfl
  have height : (8 : UInt64).toNat = 8 := rfl
  have hwords : UInt64.size = 2 ^ 64 := rfl
  rcases Nat.lt_or_ge index.toNat (2 ^ 61) with hlow | hhigh
  · obtain ⟨scaled, hmul, hscaled⟩ :=
      Word.exists_mul_eq (a := index) (b := 8) (by rw [height]; omega)
    rw [height] at hscaled
    obtain ⟨distance, hadd, hdistance⟩ := Word.exists_add_eq (a := 1) (b := scaled) (by omega)
    rw [hone, hscaled] at hdistance
    rw [operand?_of_lt hlow, operandWord?_eq_checked hsize hdistance, inWords?, hmul, ok_bind, hadd]
    rfl
  · -- The product is a multiple of eight, so it is the step that cannot be done.
    have hmul : Word.mul index 8 = .error .overflow := if_neg (by rw [height]; omega)
    rw [operand?_of_le hhigh, inWords?, hmul]
    rfl

theorem exact_iff : Exact code offset index ↔ index.toNat < 2 ^ 61 := by
  constructor
  · rintro ⟨found, hfound, -⟩
    exact (operand?_eq_ok_iff.1 hfound).1
  · intro hlow
    exact ⟨_, operand?_of_lt hlow _, fun _ => operandWord?_eq_some_iff_holds⟩

end Words

/-- The place of an operand is found with machine words, and the distance from the offset is not
checked for overflow. Below the number 2^61 the operand is read as exact arithmetic has it, and
nothing if the code ends before it. From there on the program ends, whatever the code. -/
theorem operand_exact_iff (hsize : code.size < UInt64.size) (offset index : UInt64) :
    operand? code offset.toNat index = inWords? code offset index ∧
    (∀ word, operand? code offset.toNat index = .ok (some word) ↔
      index.toNat < 2 ^ 61 ∧ Holds code offset.toNat index.toNat word) ∧
    (operand? code offset.toNat index = .ok none ↔
      index.toNat < 2 ^ 61 ∧ code.size < offset.toNat + 1 + 8 * index.toNat + 8) ∧
    (operand? code offset.toNat index = .error .overflow ↔ 2 ^ 61 ≤ index.toNat) ∧
    (Exact code offset index ↔ index.toNat < 2 ^ 61) := by
  refine ⟨operand?_eq_inWords? hsize offset index, fun word => ?_, ?_, operand?_eq_error_iff,
    exact_iff⟩
  · rw [operand?_eq_ok_iff, operandWord?_eq_some_iff_holds]
  · rw [operand?_eq_ok_iff, operandWord?_eq_none_iff_size_lt]

def calling : Array UInt8 := (Instruction.encode (.call 5 (-2))).toArray

theorem operand_exact_iff_calling : calling.size < UInt64.size ∧ Exact calling 0 1 ∧
    operand? calling (0 : UInt64).toNat 1 = .ok (some (-2)) ∧
    operand? calling (0 : UInt64).toNat 2305843009213693951 = .ok none := by
  have hsize : calling.size < UInt64.size := by decide
  obtain ⟨-, hread, -, -, hexact⟩ := operand_exact_iff hsize 0 1
  obtain ⟨-, -, hnone, -⟩ := operand_exact_iff hsize 0 2305843009213693951
  exact ⟨hsize, hexact.2 (by decide), (hread (-2)).2 ⟨by decide, by decide, by decide⟩,
    hnone.2 ⟨by decide, by decide⟩⟩

/-- Eight times 2^61 is no machine word. So the program ends, although the operand would lie far
behind the end of the code and there is none. -/
theorem operand_overflows :
    operand? calling (0 : UInt64).toNat 2305843009213693952 = .error .overflow ∧
      calling.size < (0 : UInt64).toNat + 1 + 8 * (2305843009213693952 : UInt64).toNat + 8 ∧
      ¬ Exact calling 0 2305843009213693952 :=
  ⟨by decide, by decide, fun h => absurd (exact_iff.1 h) (by decide)⟩

end Operand
end TieredVM
