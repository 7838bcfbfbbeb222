/-
# Rings

A circular list that is held at one of its places. Going on and writing at each
place fills the places in turn, and a turn around the ring visits each of them once.

Key definitions: `HeldRing`, `HeldRing.next`, `HeldRing.fill`, `HeldRing.visits`.
Key theorems: `HeldRing.cells_fill`, `HeldRing.visits_eq_take`, `HeldRing.visits_perm`.
-/
import Mathlib.Data.List.Rotate

variable {α : Type}

/-- The values of the ring, from the place where it is held. -/
structure HeldRing (α : Type) where
  cells : List α
  ne_nil : cells ≠ []

namespace HeldRing

/-- A ring of `n` places that hold nothing, if there are any. -/
def new (n : ℕ) : Option (HeldRing (Option α)) :=
  if h : n = 0 then none else some ⟨List.replicate n none, by simpa using h⟩

def value (r : HeldRing α) : α := r.cells.head r.ne_nil

def setValue (r : HeldRing α) (a : α) : HeldRing α := ⟨a :: r.cells.tail, List.cons_ne_nil _ _⟩

/-- The same ring, held at the next place. -/
def next (r : HeldRing α) : HeldRing α := ⟨r.cells.rotate 1, mt List.rotate_eq_nil_iff.mp r.ne_nil⟩

/-- The values are written at one place after the other. -/
def fill (r : HeldRing α) (as : List α) : HeldRing α := as.foldl (fun r a => (r.setValue a).next) r

/-- What is held on the next `n` places. -/
def visits : ℕ → HeldRing α → List α
  | 0, _ => []
  | n + 1, r => r.next.value :: visits n r.next

@[simp] theorem cells_next (r : HeldRing α) : r.next.cells = r.cells.rotate 1 := rfl

theorem cells_setValue_next (r : HeldRing α) (a : α) : (r.setValue a).next.cells = r.cells.tail ++ [a] := by
  rw [cells_next, setValue, List.rotate_cons_succ, List.rotate_zero]

/-- As many values as are written replace the first ones, and come after the others. -/
theorem cells_fill : ∀ (as : List α) (r : HeldRing α), as.length ≤ r.cells.length →
    (r.fill as).cells = r.cells.drop as.length ++ as
  | [], r, _ => by simp [fill]
  | a :: as, r, h => by
    have hcells := cells_setValue_next r a
    have hlength : as.length ≤ r.cells.tail.length := by
      rw [List.length_tail]
      exact Nat.le_sub_one_of_lt h
    calc ((r.setValue a).next.fill as).cells
      _ = (r.setValue a).next.cells.drop as.length ++ as := cells_fill as _ (by
        rw [hcells, List.length_append]
        omega)
      _ = r.cells.drop (a :: as).length ++ a :: as := by
        rw [hcells, List.drop_append_of_le_length hlength, List.drop_tail, List.append_assoc, List.singleton_append,
          List.length_cons]

theorem length_visits : ∀ (n : ℕ) (r : HeldRing α), (visits n r).length = n
  | 0, _ => rfl
  | n + 1, r => congrArg (· + 1) (length_visits n r.next)

theorem visits_add : ∀ (m n : ℕ) (r : HeldRing α), ∃ s : HeldRing α, visits (m + n) r = visits m r ++ visits n s
  | 0, n, r => ⟨r, by rw [Nat.zero_add, visits, List.nil_append]⟩
  | m + 1, n, r => by
    obtain ⟨s, hs⟩ := visits_add m n r.next
    refine ⟨s, ?_⟩
    rw [Nat.add_right_comm, visits, visits, hs, List.cons_append]

/-- Up to a whole turn, the visits are the places in turn. -/
theorem visits_eq_take : ∀ (n : ℕ) (r : HeldRing α), n ≤ r.cells.length → visits n r = (r.cells.rotate 1).take n
  | 0, _, _ => by simp [visits]
  | n + 1, r, h => by
    have hnext : n ≤ r.next.cells.length := by
      rw [cells_next, List.length_rotate]
      omega
    rw [visits, visits_eq_take n r.next hnext]
    obtain ⟨a, as, hcells⟩ := List.exists_cons_of_ne_nil r.next.ne_nil
    have hn : n ≤ as.length := by
      have hlength : r.next.cells.length = r.cells.length := List.length_rotate _ _
      rw [hcells, List.length_cons] at hlength
      omega
    have hvalue : r.next.value = a := by
      simp only [value, hcells, List.head_cons]
    rw [hvalue, hcells, ← cells_next, hcells, List.rotate_cons_succ, List.rotate_zero, List.take_append_of_le_length hn,
      List.take_succ_cons]

/-- A whole turn visits every place once. -/
theorem visits_perm (r : HeldRing α) : (visits r.cells.length r).Perm r.cells := by
  rw [visits_eq_take _ r le_rfl, List.take_of_length_le (List.length_rotate _ _).le]
  exact List.rotate_perm _ _

theorem perm_cells_next (r : HeldRing α) : r.next.cells.Perm r.cells := List.rotate_perm _ _

theorem visits_mem : ∀ (n : ℕ) (r : HeldRing α), ∀ a ∈ visits n r, a ∈ r.cells
  | 0, _, _, h => nomatch h
  | n + 1, r, a, h => by
    rcases List.mem_cons.mp h with rfl | h
    · exact (perm_cells_next r).mem_iff.mp (List.head_mem _)
    · exact (perm_cells_next r).mem_iff.mp (visits_mem n r.next a h)

variable {r : HeldRing (Option α)}

/-- Visits that meet as many full places as there are, and no empty one, meet each of these once. -/
theorem visits_perm_of_full {n : ℕ} {as : List α} (h : visits n r = as.map some) (hn : n = (r.cells.filterMap id).length) :
    as.Perm (r.cells.filterMap id) := by
  have hle : n ≤ r.cells.length := hn ▸ List.length_filterMap_le _ _
  have hsub : List.Sublist as ((r.cells.rotate 1).filterMap id) := by
    have htake := (List.take_sublist n (r.cells.rotate 1)).filterMap id
    rw [← visits_eq_take n r hle, h, List.filterMap_map, Function.id_comp, List.filterMap_some] at htake
    exact htake
  have hperm : ((r.cells.rotate 1).filterMap id).Perm (r.cells.filterMap id) := (List.rotate_perm _ _).filterMap id
  have hlength : as.length = n := by
    rw [← length_visits n r, h, List.length_map]
  rw [hsub.eq_of_length (hlength.trans (hn.trans hperm.length_eq.symm))]
  exact hperm

end HeldRing
