/-!
Machine words. A word is a 64-bit two's-complement number; in code and in containers it is
written as eight bytes, the most significant first. Main statements: reading eight written
bytes gives the word back, and every eight bytes are the writing of the word they read as.
-/
set_option autoImplicit false

namespace TieredVM.Word

def digits : Nat → Nat → List UInt8
  | 0, _ => []
  | width + 1, n => digits width (n / 256) ++ [UInt8.ofNat n]

def ofDigits (bytes : List UInt8) : Nat :=
  bytes.foldl (fun n byte => n * 256 + byte.toNat) 0

def capacity : Nat → Nat
  | 0 => 1
  | width + 1 => 256 * capacity width

theorem capacity_pos (width : Nat) : 0 < capacity width := by
  induction width with
  | zero => exact Nat.one_pos
  | succ width ih => exact Nat.mul_pos (by decide) ih

@[simp] theorem length_digits (width n : Nat) : (digits width n).length = width := by
  induction width generalizing n with
  | zero => rfl
  | succ width ih => simp [digits, ih]

@[simp] theorem ofDigits_nil : ofDigits [] = 0 := rfl

@[simp] theorem ofDigits_concat (bytes : List UInt8) (byte : UInt8) :
    ofDigits (bytes ++ [byte]) = ofDigits bytes * 256 + byte.toNat := by
  simp [ofDigits]

theorem ofDigits_digits (width n : Nat) : ofDigits (digits width n) = n % capacity width := by
  induction width generalizing n with
  | zero => simp [digits, capacity, Nat.mod_one]
  | succ width ih =>
    have h : n % 2 ^ 8 = n % 256 := rfl
    rw [digits, ofDigits_concat, ih, UInt8.toNat_ofNat', h, capacity, Nat.mod_mul]
    omega

theorem digits_ofDigits_concat (bytes : List UInt8) (byte : UInt8) (width : Nat) :
    digits (width + 1) (ofDigits (bytes ++ [byte])) = digits width (ofDigits bytes) ++ [byte] := by
  have h : byte.toNat < 256 := byte.toNat_lt
  have hq : (ofDigits bytes * 256 + byte.toNat) / 256 = ofDigits bytes := by omega
  have hr : UInt8.ofNat (ofDigits bytes * 256 + byte.toNat) = byte := by
    apply UInt8.toNat_inj.1
    rw [UInt8.toNat_ofNat']
    omega
  rw [ofDigits_concat, digits, hq, hr]

theorem digits_ofDigits (bytes : List UInt8) : digits bytes.length (ofDigits bytes) = bytes := by
  generalize h : bytes.length = width
  induction width generalizing bytes with
  | zero => simp_all [digits]
  | succ width ih =>
    have hne : bytes ≠ [] := by rintro rfl; simp at h
    have hlen : bytes.dropLast.length = width := by simp [h]
    rw [← List.dropLast_concat_getLast hne, digits_ofDigits_concat, ih _ hlen]

theorem ofDigits_lt (bytes : List UInt8) : ofDigits bytes < capacity bytes.length := by
  rw [← digits_ofDigits bytes, ofDigits_digits, length_digits]
  exact Nat.mod_lt _ (capacity_pos _)

def toBytes (value : Int64) : List UInt8 :=
  digits 8 value.toUInt64.toNat

def ofBytes (bytes : List UInt8) : Int64 :=
  (UInt64.ofNat (ofDigits bytes)).toInt64

@[simp] theorem length_toBytes (value : Int64) : (toBytes value).length = 8 :=
  length_digits 8 _

@[simp] theorem ofBytes_toBytes (value : Int64) : ofBytes (toBytes value) = value := by
  have h : value.toUInt64.toNat < capacity 8 := value.toUInt64.toNat_lt
  rw [ofBytes, toBytes, ofDigits_digits, Nat.mod_eq_of_lt h, UInt64.ofNat_toNat]
  exact Int64.toInt64_toUInt64 value

theorem toBytes_ofBytes {bytes : List UInt8} (h : bytes.length = 8) :
    toBytes (ofBytes bytes) = bytes := by
  have hlt : ofDigits bytes < capacity 8 := h ▸ ofDigits_lt bytes
  have hmod : ofDigits bytes % 2 ^ 64 = ofDigits bytes := Nat.mod_eq_of_lt hlt
  rw [toBytes, ofBytes, UInt64.toUInt64_toInt64, UInt64.toNat_ofNat', hmod, ← h]
  exact digits_ofDigits bytes

def toIndex? (value : Int64) : Option Nat :=
  value.toInt.toNat?

theorem toIndex?_eq_some_iff {value : Int64} {n : Nat} :
    toIndex? value = some n ↔ value.toInt = n :=
  Int.mem_toNat?

theorem toIndex?_eq_none_iff {value : Int64} : toIndex? value = none ↔ value.toInt < 0 := by
  unfold toIndex?
  cases value.toInt with
  | ofNat n => simp [Int.toNat?]
  | negSucc n => simp [Int.toNat?, Int.negSucc_lt_zero]

/-- The word that stands for a count or an index; only the low 64 bits are kept. -/
def ofIndex (n : Nat) : Int64 := Int64.ofNat n

theorem toIndex?_ofIndex {n : Nat} (h : n < 9223372036854775808) :
    toIndex? (ofIndex n) = some n := by
  rw [toIndex?_eq_some_iff, ofIndex, Int64.toInt_ofNat_of_lt h]

end TieredVM.Word
