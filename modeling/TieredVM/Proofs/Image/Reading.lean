import Mathlib.Data.List.Nodup
import Mathlib.Tactic.MkIffOfInductiveProp
import TieredVM.Image.Decode
import TieredVM.Image.Encode
import TieredVM.Proofs.Except
import TieredVM.Proofs.Word
/-!
What the readers of fields accept. Each of them has a result exactly if the file goes on with the
written form of that result, and then it stops right behind it.
-/
set_option autoImplicit false

namespace TieredVM

/-- From the first cursor to the last, a file holds the given bytes. -/
@[mk_iff]
structure Cursor.Spans (first : Cursor) (bytes : List UInt8) (last : Cursor) : Prop where
  rest : first.rest = bytes ++ last.rest
  offset : last.offset = first.offset + bytes.length

namespace Cursor

variable {first middle last : Cursor} {bytes more : List UInt8}

theorem spans_nil_iff : first.Spans [] last ↔ first = last := by
  cases first
  cases last
  simp [spans_iff, and_comm, eq_comm]

theorem spans_append_iff :
    first.Spans (bytes ++ more) last ↔
      ∃ middle, first.Spans bytes middle ∧ middle.Spans more last := by
  constructor
  · intro h
    refine ⟨⟨first.offset + bytes.length, more ++ last.rest⟩, ⟨?_, rfl⟩, ⟨rfl, ?_⟩⟩
    · rw [h.rest, List.append_assoc]
    · rw [h.offset, List.length_append, Nat.add_assoc]
  · rintro ⟨middle, hbytes, hmore⟩
    refine ⟨?_, ?_⟩
    · rw [hbytes.rest, hmore.rest, List.append_assoc]
    · rw [hmore.offset, hbytes.offset, List.length_append, Nat.add_assoc]

end Cursor

theorem Text.fromUTF8?_eq_some_iff {bytes : List UInt8} {text : String} :
    String.fromUTF8? ⟨bytes.toArray⟩ = some text ↔ bytes = Text.bytes text := by
  unfold String.fromUTF8?
  constructor
  · intro h
    split at h
    · cases h
      rfl
    · cases h
  · rintro rfl
    exact dif_pos text.isValidUTF8

namespace Reader

variable {α β : Type} {cursor last : Cursor}

theorem bind_eq_ok_iff {x : Reader α} {f : α → Reader β} {result : β × Cursor} :
    (x >>= f) cursor = .ok result ↔
      ∃ a next, x cursor = .ok (a, next) ∧ f a next = .ok result := by
  change (x cursor >>= fun found => f found.1 found.2) = .ok result ↔ _
  rw [TieredVM.bind_eq_ok_iff]
  exact ⟨fun ⟨found, h⟩ => ⟨found.1, found.2, h⟩, fun ⟨a, next, h⟩ => ⟨(a, next), h⟩⟩

theorem pure_eq_ok_iff {a b : α} :
    (pure a : Reader α) cursor = .ok (b, last) ↔ a = b ∧ cursor = last := by
  change Except.ok (a, cursor) = .ok (b, last) ↔ _
  simp

theorem not_fail_eq_ok {error : LoadError} {result : α × Cursor} :
    ¬ (fail error : Reader α) cursor = .ok result := by
  simp [fail]

theorem offset_eq_ok_iff {n : Nat} :
    offset cursor = .ok (n, last) ↔ cursor.offset = n ∧ cursor = last := by
  simp [offset]

theorem take_eq_ok_iff {n : Nat} {bytes : List UInt8} :
    take n cursor = .ok (bytes, last) ↔ bytes.length = n ∧ cursor.Spans bytes last := by
  simp only [take, List.splitAt_eq]
  constructor
  · intro h
    split at h
    · rename_i hlength
      cases h
      exact ⟨hlength, (List.take_append_drop _ _).symm, by rw [hlength]⟩
    · cases h
  · rintro ⟨rfl, h⟩
    cases last
    simp [h.rest, ← h.offset]

theorem byte_eq_ok_iff {byte : UInt8} :
    Reader.byte cursor = .ok (byte, last) ↔ cursor.Spans [byte] last := by
  obtain ⟨start, rest⟩ := cursor
  cases last
  cases rest with
  | nil => simp [Reader.byte, Cursor.spans_iff]
  | cons first rest => simp [Reader.byte, Cursor.spans_iff, and_comm, and_assoc, eq_comm]

theorem word_eq_ok_iff {value : Int64} :
    word cursor = .ok (value, last) ↔ cursor.Spans (Word.toBytes value) last := by
  simp only [word, bind_eq_ok_iff, take_eq_ok_iff, pure_eq_ok_iff]
  constructor
  · rintro ⟨bytes, _, ⟨hlength, hspans⟩, rfl, rfl⟩
    rwa [Word.toBytes_ofBytes hlength]
  · intro hspans
    exact ⟨_, _, ⟨Word.length_toBytes value, hspans⟩, Word.ofBytes_toBytes value, rfl⟩

theorem size_eq_ok_iff {field : SizeField} {n : Nat} :
    size field cursor = .ok (n, last) ↔ n < 2 ^ 63 ∧ cursor.Spans (Word.encodeIndex n) last := by
  simp only [size, bind_eq_ok_iff, offset_eq_ok_iff, word_eq_ok_iff]
  constructor
  · rintro ⟨_, _, ⟨-, rfl⟩, value, next, hspans, h⟩
    cases hn : Word.toIndex? value with
    | none => simp [hn, not_fail_eq_ok] at h
    | some found =>
      simp only [hn, pure_eq_ok_iff] at h
      obtain ⟨rfl, rfl⟩ := h
      exact ⟨Word.lt_of_toIndex? hn, by rwa [Word.encodeIndex, Word.ofIndex_of_toIndex? hn]⟩
  · rintro ⟨hlt, hspans⟩
    refine ⟨_, _, ⟨rfl, rfl⟩, _, _, hspans, ?_⟩
    simp only [Word.toIndex?_ofIndex hlt, pure_eq_ok_iff, and_self]

theorem name_eq_ok_iff {text : String} :
    name cursor = .ok (text, last) ↔
      (Text.bytes text).length ≤ Image.maxNameLength ∧
        cursor.Spans (Text.encodeName text) last := by
  simp only [name, bind_eq_ok_iff, offset_eq_ok_iff, byte_eq_ok_iff]
  rw [Text.encodeName, ← List.singleton_append, Cursor.spans_append_iff]
  constructor
  · rintro ⟨_, _, ⟨-, rfl⟩, length, next, hlength, h⟩
    split at h
    · exact absurd h not_fail_eq_ok
    · rename_i hle
      simp only [bind_eq_ok_iff, take_eq_ok_iff] at h
      obtain ⟨bytes, after, ⟨hsize, hspans⟩, h⟩ := h
      cases htext : String.fromUTF8? ⟨bytes.toArray⟩ with
      | none =>
        rw [htext] at h
        exact absurd h not_fail_eq_ok
      | some found =>
        simp only [htext, pure_eq_ok_iff] at h
        obtain ⟨rfl, rfl⟩ := h
        obtain rfl := Text.fromUTF8?_eq_some_iff.1 htext
        rw [hsize, UInt8.ofNat_toNat]
        exact ⟨Nat.le_of_not_gt hle, next, hlength, hspans⟩
  · rintro ⟨hle, next, hlength, hspans⟩
    have hsmall : (Text.bytes text).length < 256 := Nat.lt_of_le_of_lt hle (by decide)
    have hsize : (UInt8.ofNat (Text.bytes text).length).toNat = (Text.bytes text).length :=
      UInt8.toNat_ofNat_of_lt' hsmall
    refine ⟨_, _, ⟨rfl, rfl⟩, _, next, hlength, ?_⟩
    rw [if_neg (by omega), bind_eq_ok_iff]
    refine ⟨_, last, take_eq_ok_iff.2 ⟨hsize.symm, hspans⟩, ?_⟩
    simp only [Text.fromUTF8?_eq_some_iff.2 rfl, pure_eq_ok_iff, and_self]

theorem eyecatcher_eq_ok_iff {result : Unit} :
    eyecatcher cursor = .ok (result, last) ↔ cursor.Spans Image.eyecatcher last := by
  simp only [eyecatcher, bind_eq_ok_iff, offset_eq_ok_iff, take_eq_ok_iff]
  constructor
  · rintro ⟨_, _, ⟨-, rfl⟩, bytes, next, ⟨-, hspans⟩, h⟩
    split at h
    · rename_i hbytes
      obtain ⟨-, rfl⟩ := pure_eq_ok_iff.1 h
      exact hbytes ▸ hspans
    · exact absurd h not_fail_eq_ok
  · intro hspans
    refine ⟨_, _, ⟨rfl, rfl⟩, _, last, ⟨rfl, hspans⟩, ?_⟩
    simp only [if_true, pure_eq_ok_iff, and_self]

theorem freshId_eq_ok_iff {count id : Nat} {taken : List Nat}
    {outOfRange : Nat → Int64 → Nat → LoadError} {duplicate : Nat → Nat → LoadError}
    (hcount : count ≤ 2 ^ 63) :
    freshId count taken outOfRange duplicate cursor = .ok (id, last) ↔
      (id < count ∧ id ∉ taken) ∧ cursor.Spans (Word.encodeIndex id) last := by
  simp only [freshId, bind_eq_ok_iff, offset_eq_ok_iff, word_eq_ok_iff]
  constructor
  · rintro ⟨_, _, ⟨-, rfl⟩, value, next, hspans, h⟩
    cases hid : (Word.toIndex? value).filter (· < count) with
    | none =>
      rw [hid] at h
      exact absurd h not_fail_eq_ok
    | some found =>
      simp only [hid] at h
      split at h
      · exact absurd h not_fail_eq_ok
      · rename_i hfresh
        obtain ⟨rfl, rfl⟩ := pure_eq_ok_iff.1 h
        obtain ⟨hindex, hlt⟩ := Option.filter_eq_some_iff.1 hid
        refine ⟨⟨of_decide_eq_true hlt, hfresh⟩, ?_⟩
        rwa [Word.encodeIndex, Word.ofIndex_of_toIndex? hindex]
  · rintro ⟨⟨hlt, hfresh⟩, hspans⟩
    have hid : (Word.toIndex? (Word.ofIndex id)).filter (· < count) = some id := by
      rw [Word.toIndex?_ofIndex (Nat.lt_of_lt_of_le hlt hcount)]
      simp [Option.filter, hlt]
    refine ⟨_, _, ⟨rfl, rfl⟩, _, _, hspans, ?_⟩
    simp only [hid, if_neg hfresh, pure_eq_ok_iff, and_self]

theorem entries_eq_ok_iff {entry : List Nat → Reader α} {id : α → Nat} {write : α → List UInt8}
    {Fits : α → Prop} {count remaining : Nat} {taken : List Nat} {table : List α}
    (hentry : ∀ taken cursor a last, entry taken cursor = .ok (a, last) ↔
      ((id a < count ∧ id a ∉ taken) ∧ Fits a) ∧ cursor.Spans (write a) last) :
    entries entry id remaining taken cursor = .ok (table, last) ↔
      (table.length = remaining ∧ (table.map id).Nodup ∧
        ∀ a ∈ table, (id a < count ∧ id a ∉ taken) ∧ Fits a) ∧
      cursor.Spans (table.flatMap write) last := by
  induction remaining generalizing taken table cursor last with
  | zero =>
    rw [entries, pure_eq_ok_iff]
    constructor
    · rintro ⟨rfl, rfl⟩
      simp [Cursor.spans_nil_iff]
    · rintro ⟨⟨hlength, -⟩, hspans⟩
      obtain rfl := List.length_eq_zero_iff.1 hlength
      exact ⟨rfl, Cursor.spans_nil_iff.1 hspans⟩
  | succ remaining ih =>
    simp only [entries, bind_eq_ok_iff, hentry, ih, pure_eq_ok_iff]
    constructor
    · rintro ⟨first, next, ⟨hfirst, hspans⟩, rest, after, ⟨⟨rfl, hnodup, hrest⟩, hmore⟩, rfl, rfl⟩
      refine ⟨⟨rfl, ?_, ?_⟩, ?_⟩
      · rw [List.map_cons, List.nodup_cons]
        refine ⟨fun hmem => ?_, hnodup⟩
        obtain ⟨other, hother, heq⟩ := List.mem_map.1 hmem
        exact (hrest other hother).1.2 (heq ▸ List.mem_cons_self)
      · intro a ha
        rcases List.mem_cons.1 ha with rfl | ha
        · exact hfirst
        · obtain ⟨⟨hlt, hfresh⟩, hfits⟩ := hrest a ha
          exact ⟨⟨hlt, fun hmem => hfresh (List.mem_cons_of_mem _ hmem)⟩, hfits⟩
      · rw [List.flatMap_cons, Cursor.spans_append_iff]
        exact ⟨next, hspans, hmore⟩
    · rintro ⟨⟨hlength, hnodup, hall⟩, hspans⟩
      cases table with
      | nil => simp at hlength
      | cons first rest =>
        rw [List.map_cons, List.nodup_cons] at hnodup
        rw [List.flatMap_cons, Cursor.spans_append_iff] at hspans
        obtain ⟨next, hfirst, hmore⟩ := hspans
        refine ⟨first, next, ⟨hall first List.mem_cons_self, hfirst⟩, rest, last,
          ⟨⟨by simpa using hlength, hnodup.2, fun a ha => ?_⟩, hmore⟩, rfl, rfl⟩
        obtain ⟨⟨hlt, hfresh⟩, hfits⟩ := hall a (List.mem_cons_of_mem _ ha)
        refine ⟨⟨hlt, fun hmem => ?_⟩, hfits⟩
        rcases List.mem_cons.1 hmem with heq | hmem
        · exact hnodup.1 (heq ▸ List.mem_map_of_mem ha)
        · exact hfresh hmem

end Reader
end TieredVM
