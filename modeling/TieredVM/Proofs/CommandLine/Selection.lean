import Mathlib.Data.Nat.Digits.Defs
import Mathlib.Tactic.Common
import TieredVM.CommandLine.Invocation
set_option autoImplicit false

namespace TieredVM.CommandLine

def addDigit (n : Nat) (digit : Char) : Option Nat :=
  if digit.isDigit then some (n * 10 + (digit.toNat - '0'.toNat)) else none

theorem addDigit_zero_eq_some_iff {n : Nat} (hn : n < 10) {digit : Char} :
    addDigit 0 digit = some n ↔ digit = n.digitChar := by
  have hzero : '0'.toNat = 48 := rfl
  unfold addDigit
  constructor
  · intro h
    split at h
    · rename_i hdigit
      have hlow := (Char.isDigit_iff_toNat.1 hdigit).1
      have hvalue : 0 * 10 + (digit.toNat - '0'.toNat) = n := Option.some.inj h
      rw [← Char.toNat_inj, Nat.toNat_digitChar_of_lt_ten hn]
      omega
    · cases h
  · rintro rfl
    rw [if_pos (by simpa [Nat.isDigit_digitChar] using hn), Nat.toNat_digitChar_of_lt_ten hn, hzero]
    simp

theorem le_of_addDigit {n m : Nat} {digit : Char} (h : addDigit n digit = some m) : 10 * n ≤ m := by
  unfold addDigit at h
  split at h
  · cases h
    omega
  · cases h

theorem le_of_foldlM_addDigit {n m : Nat} {digits : List Char}
    (h : digits.foldlM addDigit n = some m) : n ≤ m := by
  induction digits generalizing n with
  | nil =>
    cases h
    exact Nat.le_refl _
  | cons digit digits ih =>
    rw [List.foldlM_cons, Option.bind_eq_bind, Option.bind_eq_some_iff] at h
    obtain ⟨k, hk, hrest⟩ := h
    have hle := le_of_addDigit hk
    have hmore := ih hrest
    omega

theorem foldlM_addDigit_eq_some_iff {n : Nat} (hn : n < 10) {digits : List Char} :
    digits ≠ [] ∧ digits.foldlM addDigit 0 = some n ↔
      ∃ zeros, digits = List.replicate zeros '0' ++ [n.digitChar] := by
  induction digits with
  | nil => simp
  | cons digit digits ih =>
    rw [List.foldlM_cons, Option.bind_eq_bind, Option.bind_eq_some_iff]
    cases digits with
    | nil =>
      constructor
      · rintro ⟨-, k, hk, hrest⟩
        cases hrest
        exact ⟨0, by rw [(addDigit_zero_eq_some_iff hn).1 hk]; rfl⟩
      · rintro ⟨zeros, hzeros⟩
        cases zeros with
        | zero =>
          cases hzeros
          exact ⟨List.cons_ne_nil _ _, n, (addDigit_zero_eq_some_iff hn).2 rfl, rfl⟩
        | succ zeros => simp [List.replicate_succ] at hzeros
    | cons second digits =>
      constructor
      · rintro ⟨-, k, hk, hrest⟩
        -- A first digit other than zero makes the number too large.
        have hzero : k = 0 := by
          rw [List.foldlM_cons, Option.bind_eq_bind, Option.bind_eq_some_iff] at hrest
          obtain ⟨m, hm, hrest⟩ := hrest
          have hle := le_of_addDigit hm
          have hmore := le_of_foldlM_addDigit hrest
          omega
        subst hzero
        obtain ⟨zeros, hzeros⟩ := ih.1 ⟨List.cons_ne_nil _ _, hrest⟩
        refine ⟨zeros + 1, ?_⟩
        rw [hzeros, (addDigit_zero_eq_some_iff (by decide)).1 hk]
        rfl
      · rintro ⟨zeros, hzeros⟩
        cases zeros with
        | zero => simp at hzeros
        | succ zeros =>
          rw [List.replicate_succ, List.cons_append, List.cons.injEq] at hzeros
          obtain ⟨rfl, hrest⟩ := hzeros
          exact ⟨List.cons_ne_nil _ _, 0, rfl, (ih.2 ⟨zeros, hrest⟩).2⟩

/-- The texts that choose a set-up: its number, perhaps with zeros and a plus sign before it. -/
def Selects (text : String) (n : Nat) : Prop :=
  n ≤ 2 ∧ ∃ sign zeros, (sign = [] ∨ sign = ['+']) ∧
    text.toList = sign ++ (List.replicate zeros '0' ++ [n.digitChar])

theorem digits_ne_plus_cons {n : Nat} (hn : n < 10) (zeros : Nat) (digits : List Char) :
    List.replicate zeros '0' ++ [n.digitChar] ≠ '+' :: digits := by
  intro h
  cases zeros with
  | zero =>
    have hdigit : n.digitChar.isDigit = true := by simpa [Nat.isDigit_digitChar] using hn
    rw [List.replicate_zero, List.nil_append, List.cons.injEq] at h
    rw [h.1] at hdigit
    cases hdigit
  | succ zeros => simp [List.replicate_succ] at h

theorem selects_iff {text : String} {n : Nat} :
    Selects text n ↔ n ≤ 2 ∧ parseNumber? text = some n := by
  refine and_congr_right fun hn => ?_
  have hlt : n < 10 := by omega
  have hdigits : ∀ digits : List Char,
      (∃ zeros, digits = List.replicate zeros '0' ++ [n.digitChar]) ↔
        (if digits.isEmpty then none else digits.foldlM addDigit 0) = some n := by
    intro digits
    rw [← foldlM_addDigit_eq_some_iff hlt]
    cases digits <;> simp
  unfold parseNumber?
  simp only
  split
  · rename_i digits htext
    refine Iff.trans ?_ (hdigits digits)
    simp only [htext]
    constructor
    · rintro ⟨sign, zeros, rfl | rfl, h⟩
      · exact absurd h.symm (digits_ne_plus_cons hlt zeros digits)
      · exact ⟨zeros, (List.cons.inj h).2⟩
    · rintro ⟨zeros, rfl⟩
      exact ⟨['+'], zeros, .inr rfl, rfl⟩
  · rename_i hplus
    refine Iff.trans ?_ (hdigits text.toList)
    constructor
    · rintro ⟨sign, zeros, rfl | rfl, h⟩
      · exact ⟨zeros, h⟩
      · exact absurd h (hplus _)
    · rintro ⟨zeros, h⟩
      exact ⟨[], zeros, .inl rfl, h⟩

theorem ofSelection?_isSome_iff {n : Nat} : (Config.ofSelection? n).isSome ↔ n ≤ 2 := by
  match n with
  | 0 | 1 | 2 => simp [Config.ofSelection?]
  | n + 3 => simp [Config.ofSelection?]

theorem config?_eq_some_iff {options : Options} {config : Config} :
    config? options = some config ↔
      ∃ n found, Selects options.interpreterType n ∧ Config.ofSelection? n = some found ∧
        config = { found with trace := options.trace, verbose := options.verbose } := by
  simp only [config?, Option.map_eq_some_iff, Option.bind_eq_some_iff, selects_iff]
  constructor
  · rintro ⟨found, ⟨n, hn, hfound⟩, rfl⟩
    have hle := ofSelection?_isSome_iff.1 (Option.isSome_of_mem hfound)
    exact ⟨n, found, ⟨hle, hn⟩, hfound, rfl⟩
  · rintro ⟨n, found, ⟨-, hn⟩, hfound, rfl⟩
    exact ⟨found, ⟨n, hn, hfound⟩, rfl⟩

theorem config?_eq_none_iff {options : Options} :
    config? options = none ↔ ∀ n, ¬ Selects options.interpreterType n := by
  rw [Option.eq_none_iff_forall_ne_some]
  simp only [ne_eq, config?_eq_some_iff]
  constructor
  · intro h n hn
    obtain ⟨found, hfound⟩ := Option.isSome_iff_exists.1 (ofSelection?_isSome_iff.2 hn.1)
    exact h _ ⟨n, found, hn, hfound, rfl⟩
  · rintro h config ⟨n, found, hn, -⟩
    exact h n hn

end TieredVM.CommandLine
