import TieredVM.Proofs.Image.Codec
set_option autoImplicit false

namespace TieredVM

@[mk_iff]
structure Image.Numbered (image : Image) : Prop where
  functions : (image.functions.map (·.id)).Perm (List.range image.functions.length)
  strings : (image.strings.map (·.id)).Perm (List.range image.strings.length)
  argCount_lt : ∀ entry ∈ image.functions, entry.argCount < UInt64.size

instance (image : Image) : Decidable image.Numbered :=
  decidable_of_iff' _ image.numbered_iff

theorem Image.numbered_of_decode {file : List UInt8} {image : Image}
    (h : decode file = .ok image) : image.Numbered := by
  have hw := wellFormed_of_decode h
  refine ⟨hw.functionIds, hw.stringIds, fun entry hentry => ?_⟩
  exact Nat.lt_trans (hw.functions entry hentry).argCount (by decide)

theorem Image.function?_eq_some_iff {image : Image} (hnodup : (image.functions.map (·.id)).Nodup)
    {id : Nat} {entry : FunctionEntry} :
    image.function? id = some entry ↔ entry ∈ image.functions ∧ entry.id = id := by
  constructor
  · intro h
    exact ⟨List.mem_of_find?_eq_some h, by simpa using List.find?_some h⟩
  · rintro ⟨hentry, rfl⟩
    cases hfound : image.function? entry.id with
    | none => simpa using List.find?_eq_none.1 hfound entry hentry
    | some found =>
      have hid : found.id = entry.id := by simpa using List.find?_some hfound
      rw [List.inj_on_of_nodup_map hnodup (List.mem_of_find?_eq_some hfound) hentry hid]

section Sorting

variable {α : Type} {id : α → Nat} {table : List α}

theorem pairwise_mergeSort_id (id : α → Nat) (table : List α) :
    (table.mergeSort (id · ≤ id ·)).Pairwise (id · ≤ id ·) := by
  have hpairwise := @List.pairwise_mergeSort α (id · ≤ id ·) (by simp; omega) (by simp; omega) table
  simpa using hpairwise

theorem map_mergeSort_of_perm (h : (table.map id).Perm (List.range table.length)) :
    (table.mergeSort (id · ≤ id ·)).map id = List.range table.length := by
  have hperm := ((List.mergeSort_perm table (id · ≤ id ·)).map id).trans h
  exact hperm.eq_of_pairwise (fun _ _ _ _ => Nat.le_antisymm)
    (List.pairwise_map.2 (pairwise_mergeSort_id id table)) List.pairwise_le_range

theorem eq_of_perm_of_pairwise {table' : List α} (h : table.Perm table')
    (hnodup : (table.map id).Nodup) (hsorted : table.Pairwise (id · ≤ id ·))
    (hsorted' : table'.Pairwise (id · ≤ id ·)) : table = table' := by
  refine h.eq_of_pairwise (fun a b ha hb hab hba => ?_) hsorted hsorted'
  exact List.inj_on_of_nodup_map hnodup ha (h.mem_iff.2 hb) (Nat.le_antisymm hab hba)

theorem mergeSort_congr_perm {table' : List α} (h : table.Perm table')
    (hnodup : (table.map id).Nodup) :
    table.mergeSort (id · ≤ id ·) = table'.mergeSort (id · ≤ id ·) := by
  have hperm := (table.mergeSort_perm (id · ≤ id ·)).trans
    (h.trans (table'.mergeSort_perm (id · ≤ id ·)).symm)
  refine eq_of_perm_of_pairwise hperm ?_ (pairwise_mergeSort_id id table)
    (pairwise_mergeSort_id id table')
  exact ((table.mergeSort_perm (id · ≤ id ·)).map id).nodup_iff.2 hnodup

theorem mergeSort_eq_self_iff :
    table.mergeSort (id · ≤ id ·) = table ↔ table.Pairwise (id · ≤ id ·) := by
  constructor
  · intro h
    rw [← h]
    exact pairwise_mergeSort_id id table
  · intro h
    exact List.mergeSort_of_pairwise (h.imp fun hle => decide_eq_true hle)

theorem mergeSort_eq_of_perm {table' : List α} (h : table.Perm table')
    (hnodup : (table.map id).Nodup) (hsorted : table'.Pairwise (id · ≤ id ·)) :
    table.mergeSort (id · ≤ id ·) = table' := by
  rw [mergeSort_congr_perm h hnodup]
  exact mergeSort_eq_self_iff.2 hsorted

theorem getElem?_mergeSort_iff (h : (table.map id).Perm (List.range table.length)) {k : Nat}
    {a : α} : (table.mergeSort (id · ≤ id ·))[k]? = some a ↔ a ∈ table ∧ id a = k := by
  have hid : ∀ n b, (table.mergeSort (id · ≤ id ·))[n]? = some b → id b = n := by
    intro n b hb
    have hmap : ((table.mergeSort (id · ≤ id ·)).map id)[n]? = some (id b) := by simp [hb]
    rw [map_mergeSort_of_perm h] at hmap
    obtain ⟨hlt, heq⟩ := List.getElem?_eq_some_iff.1 hmap
    simpa using heq.symm
  constructor
  · intro ha
    exact ⟨List.mem_mergeSort.1 (List.mem_of_getElem? ha), hid k a ha⟩
  · intro ha
    obtain ⟨n, hn⟩ := List.mem_iff_getElem?.1 (List.mem_mergeSort.2 ha.1)
    rwa [← ha.2, hid n a hn]

end Sorting

end TieredVM
