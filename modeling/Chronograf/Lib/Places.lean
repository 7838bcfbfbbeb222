/-
# Places in a list

Where the elements of a list stand after a sort, and after some of them have
been left out.

Key theorems: `insertionSort_filter`, `idxOf_split`.
-/
import Mathlib.Data.List.Sort

namespace Places

theorem orderedInsert_filter {α : Type} (le : α → α → Prop) [DecidableRel le] [IsTrans α le] (a : α) (sel : α → Bool) :
    ∀ {rows : List α}, rows.Pairwise le →
      (rows.orderedInsert le a).filter sel = if sel a then (rows.filter sel).orderedInsert le a else rows.filter sel
  | [], _ => by
    rw [List.orderedInsert_nil]
    cases hsel : sel a <;> simp [hsel]
  | b :: rows, h => by
    obtain ⟨hb, hrows⟩ := List.pairwise_cons.mp h
    by_cases hab : le a b
    · have hfirst : ∀ x ∈ (b :: rows).filter sel, le a x := by
        intro x hx
        rcases List.mem_cons.mp (List.mem_filter.mp hx).1 with rfl | hx
        · exact hab
        · exact trans_of le hab (hb x hx)
      rw [List.orderedInsert_cons, if_pos hab, List.filter_cons]
      split_ifs with ha
      · cases hl : (b :: rows).filter sel with
        | nil => rfl
        | cons x l => rw [List.orderedInsert_cons, if_pos (hfirst x (hl ▸ List.mem_cons_self))]
      · rfl
    · rw [List.orderedInsert_cons, if_neg hab, List.filter_cons, List.filter_cons, orderedInsert_filter le a sel hrows]
      split_ifs
      · rw [List.orderedInsert_cons, if_neg hab]
      · rfl
      · rfl
      · rfl

/-- A filter before a sort that keeps the order of equals is one after it. -/
theorem insertionSort_filter {α : Type} (le : α → α → Prop) [DecidableRel le] [IsTrans α le] [Std.Total le] (l : List α) (sel : α → Bool) :
    (l.filter sel).insertionSort le = (l.insertionSort le).filter sel := by
  induction l with
  | nil => rfl
  | cons a l ih =>
    rw [List.filter_cons, List.insertionSort_cons, orderedInsert_filter le a sel (List.pairwise_insertionSort _ _), ← ih]
    split_ifs <;> rfl

/-- Where two elements of a list stand. -/
theorem idxOf_split {α : Type} [DecidableEq α] {before after : List α} {a b : α} (h : (before ++ a :: after).Nodup) :
    (b ∈ before → (before ++ a :: after).idxOf b < (before ++ a :: after).idxOf a) ∧
    (b ∈ after → (before ++ a :: after).idxOf a < (before ++ a :: after).idxOf b) := by
  have hnodup := List.nodup_append.mp h
  have ha : a ∉ before := fun hmem => hnodup.2.2 a hmem a List.mem_cons_self rfl
  have hidx : (before ++ a :: after).idxOf a = before.length := by
    rw [List.idxOf_append_of_notMem ha, List.idxOf_cons_self, Nat.add_zero]
  rw [hidx]
  constructor
  · intro hb
    rw [List.idxOf_append_of_mem hb]
    exact List.idxOf_lt_length_iff.mpr hb
  · intro hb
    have hbefore : b ∉ before := fun hmem => hnodup.2.2 b hmem b (List.mem_cons_of_mem a hb) rfl
    have hne : a ≠ b := by
      rintro rfl
      exact (List.nodup_cons.mp hnodup.2.1).1 hb
    rw [List.idxOf_append_of_notMem hbefore, List.idxOf_cons_ne _ hne]
    omega

end Places
