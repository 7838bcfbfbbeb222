/-
# Sorts by a comparison

A sort promises an order only for a comparison that is one: where the elements
can be given keys that are compared. For any other comparison it makes some
order of the elements. Such a sort need not be stable.

Key definitions: `SliceSort`, `SliceSort.insertion`.
Key theorems: `SliceSort.sort_eq`, `SliceSort.insertion_last_two`.
-/
import Mathlib.Data.List.Sort
import Mathlib.Data.List.Nodup

structure SliceSort (α : Type) where
  sort : (α → α → Bool) → List α → List α
  perm : ∀ less l, (sort less l).Perm l
  sorted : ∀ {β : Type} [LinearOrder β] (key : α → β) {less : α → α → Bool} {l : List α},
    (∀ a ∈ l, ∀ b ∈ l, less a b ↔ key a < key b) → (sort less l).Pairwise fun a b => key a ≤ key b

namespace SliceSort

variable {α β : Type} [LinearOrder β] {less : α → α → Bool} {l : List α}

/-- Elements with different keys are sorted in one way. -/
theorem sort_eq (S : SliceSort α) (key : α → β) (hless : ∀ a ∈ l, ∀ b ∈ l, less a b ↔ key a < key b)
    {sorted : List α} (hperm : l.Perm sorted) (h : sorted.Pairwise fun a b => key a < key b) : S.sort less l = sorted := by
  have hsort : (S.sort less l).Perm sorted := (S.perm less l).trans hperm
  have hnodup : (sorted.map key).Nodup := List.pairwise_map.mpr (h.imp ne_of_lt)
  refine List.Perm.eq_of_pairwise (fun a b ha hb hab hba => ?_) (S.sorted key hless) (h.imp le_of_lt) hsort
  exact List.inj_on_of_nodup_map hnodup (hsort.mem_iff.mp ha) hb (le_antisymm hab hba)

/-- The sort that inserts each element, from the last to the first. -/
def insertion (α : Type) : SliceSort α where
  sort less l := l.insertionSort fun a b => less b a = false
  perm less l := l.perm_insertionSort _
  sorted {β} _ key less l h := by
    have hmap : (l.insertionSort fun a b => less b a = false).map key = (l.map key).insertionSort (· ≤ ·) := by
      refine List.map_insertionSort _ _ key l fun a ha b hb => ?_
      rw [← not_lt, ← h b hb a ha, Bool.not_eq_true]
    have hsorted := List.pairwise_insertionSort (· ≤ ·) (l.map key)
    rw [← hmap] at hsorted
    exact List.pairwise_map.mp hsorted

/-- The last two elements, each less than the other, change places. -/
theorem insertion_last_two {a b : α} (h : less b a) (l : List α) :
    [b, a].Sublist ((insertion α).sort less (l ++ [a, b])) := by
  induction l with
  | nil =>
    have hle : ¬ less b a = false := by rw [h]; exact Bool.noConfusion
    have hsort : (insertion α).sort less [a, b] = [b, a] := by
      simp only [insertion, List.insertionSort_cons, List.insertionSort_nil, List.orderedInsert_nil,
        List.orderedInsert_cons, if_neg hle]
    rw [List.nil_append, hsort]
  | cons c l ih => exact ih.trans (List.sublist_orderedInsert c _)

end SliceSort
