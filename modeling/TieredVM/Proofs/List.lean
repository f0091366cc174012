import Mathlib.Data.List.Induction
import Mathlib.Data.List.Nodup
set_option autoImplicit false

namespace TieredVM

theorem concat_eq_append_cons {α : Type} {list before later : List α} {last a : α}
    (h : list ++ [last] = before ++ a :: later) :
    (before = list ∧ a = last) ∨ ∃ rest, list = before ++ a :: rest := by
  rcases List.eq_nil_or_concat later with rfl | ⟨rest, x, rfl⟩
  · obtain ⟨hlist, hlast⟩ := List.append_inj' h rfl
    exact .inl ⟨hlist.symm, (List.singleton_inj.1 hlast).symm⟩
  · have hsplit : list ++ [last] = (before ++ a :: rest) ++ [x] := by simpa using h
    exact .inr ⟨rest, (List.append_inj' hsplit rfl).1⟩

theorem getElem?_filterMap_eq_some_iff {α β : Type} {f : α → Option β} {list : List α} {k : Nat}
    {b : β} : (list.filterMap f)[k]? = some b ↔
      ∃ i a, list[i]? = some a ∧ f a = some b ∧ ((list.take i).filterMap f).length = k := by
  induction list generalizing k with
  | nil => simp
  | cons first rest ih =>
    constructor
    · intro h
      cases hfirst : f first with
      | none =>
        rw [List.filterMap_cons_none hfirst] at h
        obtain ⟨i, a, ha, hb, hk⟩ := ih.1 h
        exact ⟨i + 1, a, ha, hb, by rw [List.take_succ_cons, List.filterMap_cons_none hfirst, hk]⟩
      | some picked =>
        rw [List.filterMap_cons_some hfirst] at h
        cases k with
        | zero => exact ⟨0, first, rfl, hfirst.trans h, rfl⟩
        | succ k =>
          obtain ⟨i, a, ha, hb, rfl⟩ := ih.1 h
          exact ⟨i + 1, a, ha, hb, by
            rw [List.take_succ_cons, List.filterMap_cons_some hfirst, List.length_cons]⟩
    · rintro ⟨i, a, ha, hb, rfl⟩
      cases i with
      | zero =>
        cases ha
        rw [List.filterMap_cons_some hb]
        rfl
      | succ i =>
        have hrest := ih.2 ⟨i, a, ha, hb, rfl⟩
        cases hfirst : f first with
        | none =>
          rwa [List.take_succ_cons, List.filterMap_cons_none hfirst,
            List.filterMap_cons_none hfirst]
        | some picked =>
          rwa [List.take_succ_cons, List.filterMap_cons_some hfirst,
            List.filterMap_cons_some hfirst, List.length_cons, List.getElem?_cons_succ]

theorem map_eq_range {α : Type} {id : α → Nat} {table : List α}
    (h : ∀ (k : Nat) (entry : α), table[k]? = some entry → id entry = k) :
    table.map id = List.range table.length := by
  refine List.ext_getElem (by rw [List.length_map, List.length_range]) fun k hk _ => ?_
  rw [List.getElem_map, List.getElem_range]
  exact h k _ (List.getElem?_eq_getElem _)

section EraseDups

variable {α : Type} [BEq α] [LawfulBEq α]

theorem eraseDups_concat (list : List α) (a : α) :
    (list ++ [a]).eraseDups = if a ∈ list then list.eraseDups else list.eraseDups ++ [a] := by
  have hone : [a].eraseDups = [a] := by
    rw [List.eraseDups_cons, List.filter_nil, List.eraseDups_nil]
  rw [List.eraseDups_append]
  by_cases h : a ∈ list <;> simp [List.removeAll, h, hone]

theorem nodup_eraseDups (list : List α) : list.eraseDups.Nodup := by
  induction list using List.reverseRecOn with
  | nil => exact List.nodup_nil
  | append_singleton list a ih =>
    rw [eraseDups_concat]
    split
    · exact ih
    · rename_i hnew
      refine List.nodup_append.2 ⟨ih, List.nodup_singleton a, fun b hb c hc heq => hnew ?_⟩
      rw [← List.mem_singleton.1 hc, ← heq]
      exact List.mem_eraseDups.1 hb

end EraseDups

end TieredVM
