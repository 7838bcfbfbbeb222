/-
# Inserting after every occurrence

The occurrences of some patterns in a list, found from left to right: at each
place the first pattern that begins there counts, and the search goes on after
its end. Inserting a list after each of them makes the list longer by that much
for each, so it changes nothing only if there is nothing to insert or no place
for it.

Key definitions: `first`, `found`, `insertAfter`.
Key theorems: `scan_induction`, `length_insertAfter`, `insertAfter_eq_self_iff`,
`found_eq_nil_iff`, `length_of_found`.
-/
import Mathlib.Data.List.Infix
import Mathlib.Data.Nat.Notation

namespace Occurrences

variable {α : Type} [DecidableEq α] {ps : List (List α)} {p w s : List α} {a : α}

/-- The first of the patterns that the list begins with. -/
def first (ps : List (List α)) (s : List α) : Option (List α) := ps.find? fun p => p.isPrefixOf s

/-- The occurrences, each as the pattern and what follows it. -/
def found (ps : List (List α)) : List α → List (List α × List α)
  | [] => []
  | a :: s =>
    match first ps (a :: s) with
    | some p => (p, s.drop (p.length - 1)) :: found ps (s.drop (p.length - 1))
    | none => found ps s
termination_by s => s.length
decreasing_by all_goals simp only [List.length_drop, List.length_cons]; omega

/-- The list with `w` after each occurrence. -/
def insertAfter (ps : List (List α)) (w : List α) : List α → List α
  | [] => []
  | a :: s =>
    match first ps (a :: s) with
    | some p => p ++ w ++ insertAfter ps w (s.drop (p.length - 1))
    | none => a :: insertAfter ps w s
termination_by s => s.length
decreasing_by all_goals simp only [List.length_drop, List.length_cons]; omega

theorem first_some (h : first ps s = some p) : p ∈ ps ∧ p <+: s :=
  ⟨List.mem_of_find?_eq_some h, List.isPrefixOf_iff_prefix.mp (by simpa using List.find?_some h)⟩

theorem first_none (h : first ps s = none) : ∀ p ∈ ps, ¬ p <+: s := fun p hp hps =>
  List.find?_eq_none.mp h p hp (List.isPrefixOf_iff_prefix.mpr hps)

section Places

variable (hne : ∀ p ∈ ps, p ≠ [])

include hne

theorem first_nil : first ps [] = none := by
  rcases h : first ps [] with _ | p
  · rfl
  · obtain ⟨hp, hs⟩ := first_some h
    exact absurd (List.prefix_nil.mp hs) (hne p hp)

/-- At an occurrence. -/
theorem found_of_first (h : first ps s = some p) : found ps s = (p, s.drop p.length) :: found ps (s.drop p.length) := by
  cases s with
  | nil =>
    rw [first_nil hne] at h
    cases h
  | cons a s =>
    obtain ⟨b, q, rfl⟩ := List.exists_cons_of_ne_nil (hne p (first_some h).1)
    rw [found, h]
    rfl

theorem insertAfter_of_first (h : first ps s = some p) :
    insertAfter ps w s = p ++ w ++ insertAfter ps w (s.drop p.length) := by
  cases s with
  | nil =>
    rw [first_nil hne] at h
    cases h
  | cons a s =>
    obtain ⟨b, q, rfl⟩ := List.exists_cons_of_ne_nil (hne p (first_some h).1)
    rw [insertAfter, h]
    rfl

end Places

/-- Where no pattern begins. -/
theorem found_cons (h : first ps (a :: s) = none) : found ps (a :: s) = found ps s := by rw [found, h]

theorem insertAfter_cons (h : first ps (a :: s) = none) : insertAfter ps w (a :: s) = a :: insertAfter ps w s := by
  rw [insertAfter, h]

/-! ### What is inserted -/

theorem length_split (h : first ps s = some p) : p.length + (s.drop p.length).length = s.length := by
  have hle := (first_some h).2.length_le
  rw [List.length_drop]
  omega

/-- The search, one place or one occurrence at a time. -/
theorem scan_induction (hne : ∀ p ∈ ps, p ≠ []) {motive : List α → Prop} (nil : motive [])
    (occurrence : ∀ s p, first ps s = some p → (s.drop p.length).length < s.length →
      motive (s.drop p.length) → motive s)
    (place : ∀ a s, first ps (a :: s) = none → motive s → motive (a :: s)) (s : List α) : motive s := by
  induction hlen : s.length using Nat.strong_induction_on generalizing s with
  | _ n ih =>
    subst hlen
    cases s with
    | nil => exact nil
    | cons a s =>
      rcases h : first ps (a :: s) with _ | p
      · exact place a s h (ih s.length (by simp) s rfl)
      · have hlt : ((a :: s).drop p.length).length < (a :: s).length := by
          have hpos := List.length_pos_iff.mpr (hne p (first_some h).1)
          have hsplit := length_split h
          omega
        exact occurrence _ p h hlt (ih _ hlt _ rfl)

theorem length_insertAfter (hne : ∀ p ∈ ps, p ≠ []) (w s : List α) :
    (insertAfter ps w s).length = s.length + (found ps s).length * w.length := by
  induction s using scan_induction hne with
  | nil => simp [insertAfter, found]
  | occurrence s p h hlt ih =>
    have hsplit := length_split h
    rw [insertAfter_of_first hne h, found_of_first hne h, List.length_append, List.length_append, ih,
      List.length_cons, Nat.add_mul]
    omega
  | place a s h ih =>
    rw [insertAfter_cons h, found_cons h, List.length_cons, ih, List.length_cons]
    omega

theorem insertAfter_nil (hne : ∀ p ∈ ps, p ≠ []) (s : List α) : insertAfter ps [] s = s := by
  induction s using scan_induction hne with
  | nil => rw [insertAfter]
  | occurrence s p h hlt ih =>
    obtain ⟨t, rfl⟩ := (first_some h).2
    rw [insertAfter_of_first hne h, ih, List.append_nil, List.drop_left]
  | place a s h ih => rw [insertAfter_cons h, ih]

theorem insertAfter_of_found_nil (hne : ∀ p ∈ ps, p ≠ []) (hs : found ps s = []) : insertAfter ps w s = s := by
  induction s using scan_induction hne with
  | nil => rw [insertAfter]
  | occurrence s p h hlt ih =>
    rw [found_of_first hne h] at hs
    cases hs
  | place a s h ih =>
    rw [found_cons h] at hs
    rw [insertAfter_cons h, ih hs]

/-- Nothing changes only if nothing is inserted. -/
theorem insertAfter_eq_self_iff (hne : ∀ p ∈ ps, p ≠ []) : insertAfter ps w s = s ↔ w = [] ∨ found ps s = [] := by
  constructor
  · intro h
    have hlen := congrArg List.length h
    rw [length_insertAfter hne] at hlen
    have hzero : (found ps s).length * w.length = 0 := by omega
    rcases Nat.mul_eq_zero.mp hzero with h | h
    · exact .inr (List.eq_nil_of_length_eq_zero h)
    · exact .inl (List.eq_nil_of_length_eq_zero h)
  · rintro (rfl | h)
    · exact insertAfter_nil hne s
    · exact insertAfter_of_found_nil hne h

/-- Nothing is found only if no pattern occurs anywhere. -/
theorem found_eq_nil_iff (hne : ∀ p ∈ ps, p ≠ []) : found ps s = [] ↔ ∀ p ∈ ps, ¬ p <:+: s := by
  induction s using scan_induction hne with
  | nil => simpa [found] using hne
  | occurrence s p h hlt ih =>
    rw [found_of_first hne h]
    obtain ⟨hp, hs⟩ := first_some h
    simp only [reduceCtorEq, false_iff, not_forall, not_not]
    exact ⟨p, hp, hs.isInfix⟩
  | place a s h ih =>
    rw [found_cons h, ih]
    refine forall₂_congr fun p hp => not_congr ?_
    rw [List.infix_cons_iff]
    exact (or_iff_right (first_none h p hp)).symm

/-- An occurrence and what follows it are within the list. -/
theorem length_of_found (hne : ∀ p ∈ ps, p ≠ []) {o : List α × List α} (ho : o ∈ found ps s) :
    o.1 ∈ ps ∧ o.1.length + o.2.length ≤ s.length := by
  induction s using scan_induction hne with
  | nil => simp [found] at ho
  | occurrence s p h hlt ih =>
    rw [found_of_first hne h] at ho
    rcases List.mem_cons.mp ho with rfl | ho
    · exact ⟨(first_some h).1, (length_split h).le⟩
    · obtain ⟨hp, hle⟩ := ih ho
      exact ⟨hp, by omega⟩
  | place a s h ih =>
    rw [found_cons h] at ho
    obtain ⟨hp, hle⟩ := ih ho
    exact ⟨hp, by rw [List.length_cons]; omega⟩

end Occurrences
