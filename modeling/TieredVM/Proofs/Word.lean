import Mathlib.Algebra.Group.Nat.Defs
import Mathlib.Tactic.Common
import TieredVM.Word
set_option autoImplicit false

namespace TieredVM.Word

theorem toIndex?_of_nonneg {value : Int64} (h : 0 ≤ value.toInt) :
    toIndex? value = some value.toInt.toNat :=
  toIndex?_eq_some_iff.2 (Int.toNat_of_nonneg h).symm

theorem nonneg_of_toIndex? {value : Int64} {n : Nat} (h : toIndex? value = some n) :
    0 ≤ value.toInt ∧ value.toInt.toNat = n := by
  have := toIndex?_eq_some_iff.1 h
  omega

theorem exists_toIndex?_iff {value : Int64} :
    (∃ n, toIndex? value = some n) ↔ 0 ≤ value.toInt := by
  constructor
  · rintro ⟨n, hn⟩
    exact (nonneg_of_toIndex? hn).1
  · intro h
    exact ⟨_, toIndex?_of_nonneg h⟩

theorem lt_of_toIndex? {value : Int64} {n : Nat} (h : toIndex? value = some n) : n < 2 ^ 63 := by
  have hn := toIndex?_eq_some_iff.1 h
  have hlt := value.toInt_lt
  omega

theorem ofIndex_of_toIndex? {value : Int64} {n : Nat} (h : toIndex? value = some n) :
    ofIndex n = value := by
  have hn := toIndex?_eq_some_iff.1 h
  rw [ofIndex, ← Int64.ofInt_eq_ofNat, ← hn, Int64.ofInt_toInt]

theorem toIndex?_of_nonneg_ofIndex {n : Nat} (hlt : n < UInt64.size)
    (h : 0 ≤ (ofIndex n).toInt) : toIndex? (ofIndex n) = some n := by
  have hsize : (Int64.size : Int) = 18446744073709551616 := rfl
  have hword : n < 18446744073709551616 := hlt
  rw [ofIndex, Int64.toInt_ofNat', Int.bmod_def, hsize] at h
  rw [toIndex?_eq_some_iff, ofIndex, Int64.toInt_ofNat', Int.bmod_def, hsize]
  split at h
  · rename_i hlow
    rw [if_pos hlow]
    omega
  · omega

end TieredVM.Word
