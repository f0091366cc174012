import Mathlib.Data.List.Perm.Subperm
import Mathlib.Data.List.Range
import TieredVM.Proofs.Image.Reading
set_option autoImplicit false

namespace TieredVM

/-- The fields of the entry have room for its name and its numbers. -/
@[mk_iff]
structure FunctionEntry.Fits (entry : FunctionEntry) : Prop where
  name : (Text.bytes entry.name).length ≤ Image.maxNameLength
  argCount : entry.argCount < 2 ^ 63
  codeSize : entry.code.size < 2 ^ 63

instance (entry : FunctionEntry) : Decidable entry.Fits :=
  decidable_of_iff' _ entry.fits_iff

/-- The images that a file can hold. -/
@[mk_iff]
structure Image.WellFormed (image : Image) : Prop where
  name : (Text.bytes image.name).length ≤ maxNameLength
  functionCount : image.functions.length ≤ maxFunctions
  functionIds : (image.functions.map (·.id)).Perm (List.range image.functions.length)
  functions : ∀ entry ∈ image.functions, entry.Fits
  stringCount : image.strings.length < 2 ^ 63
  stringIds : (image.strings.map (·.id)).Perm (List.range image.strings.length)
  strings : ∀ entry ∈ image.strings, entry.bytes.length < 2 ^ 63

instance (image : Image) : Decidable image.WellFormed :=
  decidable_of_iff' _ image.wellFormed_iff

theorem perm_range_iff {ids : List Nat} :
    ids.Perm (List.range ids.length) ↔ ids.Nodup ∧ ∀ id ∈ ids, id < ids.length := by
  constructor
  · intro h
    exact ⟨h.nodup_iff.2 List.nodup_range, fun id hid => List.mem_range.1 (h.mem_iff.1 hid)⟩
  · rintro ⟨hnodup, hlt⟩
    have hsub : ids ⊆ List.range ids.length := fun id hid => List.mem_range.2 (hlt id hid)
    exact (hnodup.subperm hsub).perm_of_length_le (by simp)

section Reading

variable {cursor last : Cursor} {count : Nat} {taken : List Nat}

theorem FunctionEntry.read_eq_ok_iff (hcount : count ≤ 2 ^ 63) {entry : FunctionEntry} :
    read count taken cursor = .ok (entry, last) ↔
      ((entry.id < count ∧ entry.id ∉ taken) ∧ entry.Fits) ∧ cursor.Spans entry.encode last := by
  simp only [read, encode, List.append_assoc, Cursor.spans_append_iff, Reader.bind_eq_ok_iff,
    Reader.name_eq_ok_iff, Reader.freshId_eq_ok_iff hcount, Reader.size_eq_ok_iff,
    Reader.take_eq_ok_iff, Reader.pure_eq_ok_iff]
  constructor
  · rintro ⟨name, a, ⟨hname, ha⟩, id, b, ⟨hid, hb⟩, args, c, ⟨hargs, hc⟩, size, d, ⟨hsize, hd⟩,
      code, e, ⟨rfl, he⟩, rfl, rfl⟩
    exact ⟨⟨hid, hname, hargs, hsize⟩, a, ha, b, hb, c, hc, d, hd, he⟩
  · rintro ⟨⟨hid, hname, hargs, hsize⟩, a, ha, b, hb, c, hc, d, hd, he⟩
    exact ⟨_, a, ⟨hname, ha⟩, _, b, ⟨hid, hb⟩, _, c, ⟨hargs, hc⟩, _, d, ⟨hsize, hd⟩, _, last,
      ⟨rfl, he⟩, rfl, rfl⟩

theorem StringEntry.read_eq_ok_iff (hcount : count ≤ 2 ^ 63) {entry : StringEntry} :
    read count taken cursor = .ok (entry, last) ↔
      ((entry.id < count ∧ entry.id ∉ taken) ∧ entry.bytes.length < 2 ^ 63) ∧
        cursor.Spans entry.encode last := by
  simp only [read, encode, List.append_assoc, Cursor.spans_append_iff, Reader.bind_eq_ok_iff,
    Reader.freshId_eq_ok_iff hcount, Reader.size_eq_ok_iff, Reader.take_eq_ok_iff,
    Reader.pure_eq_ok_iff]
  constructor
  · rintro ⟨id, a, ⟨hid, ha⟩, length, b, ⟨hlength, hb⟩, bytes, c, ⟨rfl, hc⟩, rfl, rfl⟩
    exact ⟨⟨hid, hlength⟩, a, ha, b, hb, hc⟩
  · rintro ⟨⟨hid, hlength⟩, a, ha, b, hb, hc⟩
    exact ⟨_, a, ⟨hid, ha⟩, _, b, ⟨hlength, hb⟩, _, last, ⟨rfl, hc⟩, rfl, rfl⟩

theorem Reader.entries_eq_ok_iff_perm {α : Type} {entry : List Nat → Reader α} {id : α → Nat}
    {write : α → List UInt8} {Fits : α → Prop} {table : List α}
    (hentry : ∀ taken cursor a last, entry taken cursor = .ok (a, last) ↔
      ((id a < count ∧ id a ∉ taken) ∧ Fits a) ∧ cursor.Spans (write a) last) :
    entries entry id count [] cursor = .ok (table, last) ↔
      table.length = count ∧ ((table.map id).Perm (List.range table.length) ∧
        ∀ a ∈ table, Fits a) ∧ cursor.Spans (table.flatMap write) last := by
  have hperm : (table.map id).Perm (List.range (table.map id).length) ↔ _ := perm_range_iff
  rw [List.length_map] at hperm
  rw [entries_eq_ok_iff hentry, hperm]
  simp only [List.forall_mem_map, List.not_mem_nil, not_false_eq_true, and_true, forall_and]
  constructor
  · rintro ⟨⟨rfl, hnodup, hlt, hfits⟩, hspans⟩
    exact ⟨rfl, ⟨⟨hnodup, hlt⟩, hfits⟩, hspans⟩
  · rintro ⟨rfl, ⟨⟨hnodup, hlt⟩, hfits⟩, hspans⟩
    exact ⟨⟨rfl, hnodup, hlt, hfits⟩, hspans⟩

theorem FunctionEntry.readTable_eq_ok_iff (hcount : count ≤ 2 ^ 63)
    {table : List FunctionEntry} :
    readTable count cursor = .ok (table, last) ↔
      table.length = count ∧ ((table.map (·.id)).Perm (List.range table.length) ∧
        ∀ entry ∈ table, entry.Fits) ∧ cursor.Spans (table.flatMap encode) last :=
  Reader.entries_eq_ok_iff_perm fun _ _ _ _ => read_eq_ok_iff hcount

theorem StringEntry.readTable_eq_ok_iff (hcount : count ≤ 2 ^ 63) {table : List StringEntry} :
    readTable count cursor = .ok (table, last) ↔
      table.length = count ∧ ((table.map (·.id)).Perm (List.range table.length) ∧
        ∀ entry ∈ table, entry.bytes.length < 2 ^ 63) ∧
      cursor.Spans (table.flatMap encode) last :=
  Reader.entries_eq_ok_iff_perm fun _ _ _ _ => read_eq_ok_iff hcount

theorem Image.read_eq_ok_iff {image : Image} :
    read cursor = .ok (image, last) ↔ image.WellFormed ∧ cursor.Spans image.encode last := by
  simp only [read, encode, List.append_assoc, ← List.singleton_append (l := List.flatMap _ _),
    Cursor.spans_append_iff, Reader.bind_eq_ok_iff, Reader.eyecatcher_eq_ok_iff,
    Reader.name_eq_ok_iff, Reader.byte_eq_ok_iff]
  constructor
  · rintro ⟨_, a, ha, name, b, ⟨hname, hb⟩, count, c, hc, h⟩
    split at h
    · exact absurd h Reader.not_fail_eq_ok
    · rename_i hle
      have hcount : count.toNat ≤ 2 ^ 63 := by
        have := count.toNat_lt
        omega
      simp only [Reader.bind_eq_ok_iff, FunctionEntry.readTable_eq_ok_iff hcount,
        Reader.size_eq_ok_iff, Reader.eyecatcher_eq_ok_iff, Reader.pure_eq_ok_iff] at h
      obtain ⟨functions, d, ⟨hlength, ⟨hids, hfits⟩, hd⟩, strings, e, ⟨hstrings, he⟩, h⟩ := h
      obtain ⟨table, f, hf, _, g, hg, rfl, rfl⟩ := h
      obtain ⟨rfl, ⟨hids', hfits'⟩, hf⟩ := (StringEntry.readTable_eq_ok_iff hstrings.le).1 hf
      refine ⟨⟨hname, hlength.trans_le (Nat.le_of_not_gt hle), hids, hfits, hstrings, hids',
        hfits'⟩, a, ha, b, hb, c, ?_, d, hd, e, he, f, hf, hg⟩
      rwa [hlength, UInt8.ofNat_toNat]
  · rintro ⟨hw, a, ha, b, hb, c, hc, d, hd, e, he, f, hf, hg⟩
    have hlength : (UInt8.ofNat image.functions.length).toNat = image.functions.length :=
      UInt8.toNat_ofNat_of_lt' (Nat.lt_of_le_of_lt hw.functionCount (by decide))
    have hcount : image.functions.length ≤ 2 ^ 63 :=
      hw.functionCount.trans (by decide)
    refine ⟨(), a, ha, _, b, ⟨hw.name, hb⟩, _, c, hc, ?_⟩
    rw [hlength, if_neg (Nat.not_lt.2 hw.functionCount)]
    simp only [Reader.bind_eq_ok_iff, FunctionEntry.readTable_eq_ok_iff hcount,
      Reader.size_eq_ok_iff, Reader.eyecatcher_eq_ok_iff, Reader.pure_eq_ok_iff]
    refine ⟨_, d, ⟨rfl, ⟨hw.functionIds, hw.functions⟩, hd⟩, _, e, ⟨hw.stringCount, he⟩, _, f, ?_,
      (), last, hg, rfl, rfl⟩
    exact (StringEntry.readTable_eq_ok_iff hw.stringCount.le).2
      ⟨rfl, ⟨hw.stringIds, hw.strings⟩, hf⟩

end Reading

namespace Image

variable {file : List UInt8} {image : Image}

theorem decode_eq_ok_iff_read :
    decode file = .ok image ↔ ∃ offset, read ⟨0, file⟩ = .ok (image, ⟨offset, []⟩) := by
  unfold decode
  rw [bind_eq_ok_iff]
  constructor
  · rintro ⟨⟨found, offset, rest⟩, hread, h⟩
    simp only [List.isEmpty_iff] at h
    split at h
    · rename_i hempty
      cases h
      exact ⟨offset, hempty ▸ hread⟩
    · cases h
  · rintro ⟨offset, hread⟩
    exact ⟨_, hread, rfl⟩

theorem wellFormed_of_decode (h : decode file = .ok image) : image.WellFormed := by
  obtain ⟨offset, hread⟩ := decode_eq_ok_iff_read.1 h
  exact (read_eq_ok_iff.1 hread).1

theorem eq_encode_of_decode (h : decode file = .ok image) : file = image.encode := by
  obtain ⟨offset, hread⟩ := decode_eq_ok_iff_read.1 h
  simpa using (read_eq_ok_iff.1 hread).2.rest

theorem decode_encode (h : image.WellFormed) : decode image.encode = .ok image :=
  decode_eq_ok_iff_read.2 ⟨_, read_eq_ok_iff.2 ⟨h, (List.append_nil _).symm, rfl⟩⟩

/-- A file holds an image exactly if it is what that image is written as and all fields have
room. -/
theorem decode_eq_ok_iff_encode :
    decode file = .ok image ↔ file = image.encode ∧ image.WellFormed := by
  simp only [decode_eq_ok_iff_read, read_eq_ok_iff, Cursor.spans_iff, List.append_nil]
  constructor
  · rintro ⟨offset, hw, hfile, -⟩
    exact ⟨hfile, hw⟩
  · rintro ⟨hfile, hw⟩
    exact ⟨_, hw, hfile, rfl⟩

end Image
end TieredVM
