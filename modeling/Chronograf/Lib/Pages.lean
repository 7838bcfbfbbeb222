/-
# Pages of a set in the order of time

A page is what a query with an order and a limit gives of the elements in a
window. A stretch is a list of elements, the latest first, that misses none
between its ends. Two lists that reach a common bound from above and from below
make a stretch together, and a page reaches the bound of the window at which its
order begins.

Key definitions: `Page`, `Stretch`, `ReachesDown`, `ReachesUp`.
Key theorems: `page_take_insertionSort`, `Page.reachesDown`, `Page.reachesUp`,
`ReachesDown.stretch_append`.
-/
import Mathlib.Data.List.Sort
import Mathlib.Order.Basic

variable {β τ : Type}

/-- The first elements of the window `W` in the order `r`, up to the limit. -/
structure Page (W : β → Prop) (r : β → β → Prop) (limit : ℕ) (rows : List β) : Prop where
  mem : ∀ p ∈ rows, W p
  nodup : rows.Nodup
  ordered : rows.Pairwise r
  length : rows.length ≤ limit
  rest : ∀ p, W p → p ∉ rows → rows.length = limit ∧ ∀ q ∈ rows, r q p

/-- Sorting the elements of the window and taking the first ones gives a page. -/
theorem page_take_insertionSort {W : β → Prop} {r : β → β → Prop} [DecidableRel r] [Std.Total r] [IsTrans β r] {l : List β}
    (hl : l.Nodup) (hW : ∀ p, p ∈ l ↔ W p) (limit : ℕ) : Page W r limit ((l.insertionSort r).take limit) := by
  have hsplit : (l.insertionSort r).take limit ++ (l.insertionSort r).drop limit = l.insertionSort r := List.take_append_drop _ _
  have hsorted : ((l.insertionSort r).take limit ++ (l.insertionSort r).drop limit).Pairwise r :=
    hsplit.symm ▸ List.pairwise_insertionSort r l
  have hmem : ∀ p, p ∈ (l.insertionSort r).take limit ++ (l.insertionSort r).drop limit ↔ W p := by
    intro p
    rw [hsplit, List.mem_insertionSort, hW]
  have hnodup : (l.insertionSort r).Nodup := (List.perm_insertionSort r l).nodup_iff.mpr hl
  refine ⟨fun p hp => (hmem p).mp (List.mem_append_left _ hp), hnodup.sublist (List.take_sublist _ _),
    (List.pairwise_append.mp hsorted).1, List.length_take_le _ _, fun p hp hrest => ?_⟩
  have hdrop : p ∈ (l.insertionSort r).drop limit := ((List.mem_append.mp ((hmem p).mpr hp)).resolve_left hrest)
  refine ⟨?_, fun q hq => (List.pairwise_append.mp hsorted).2.2 q hq p hdrop⟩
  have hlength := List.length_pos_of_mem hdrop
  rw [List.length_drop] at hlength
  rw [List.length_take]
  omega

variable [LinearOrder τ]

/-- Elements of `S`, the latest first, without gaps. -/
structure Stretch (S : β → Prop) (key : β → τ) (rows : List β) : Prop where
  mem : ∀ p ∈ rows, S p
  nodup : rows.Nodup
  descending : rows.Pairwise fun a b => key b ≤ key a
  gapless : ∀ p, S p → ∀ a ∈ rows, ∀ b ∈ rows, key a < key p → key p < key b → p ∈ rows

/-- The rows are at the bound `m` or later and miss nothing from there up to the latest. -/
def ReachesDown (S : β → Prop) (key : β → τ) (m : τ) (rows : List β) : Prop :=
  (∀ a ∈ rows, m ≤ key a) ∧ ∀ p, S p → m ≤ key p → ∀ b ∈ rows, key p < key b → p ∈ rows

/-- The rows are before the bound `m` and miss nothing from the earliest up to it. -/
def ReachesUp (S : β → Prop) (key : β → τ) (m : τ) (rows : List β) : Prop :=
  (∀ a ∈ rows, key a < m) ∧ ∀ p, S p → key p < m → ∀ a ∈ rows, key a < key p → p ∈ rows

variable {S : β → Prop} {key : β → τ} {lower upper m : τ} {limit : ℕ} {newer older rows : List β}

theorem Page.reachesDown (h : Page (fun p => S p ∧ lower ≤ key p ∧ key p < upper) (fun a b => key a ≤ key b) limit rows) :
    ReachesDown S key lower rows.reverse := by
  refine ⟨fun a ha => (h.mem a (List.mem_reverse.mp ha)).2.1, fun p hS hp b hb hlt => ?_⟩
  rw [List.mem_reverse] at hb ⊢
  by_contra hne
  have hwindow := (h.mem b hb).2.2
  exact absurd hlt (not_lt.mpr ((h.rest p ⟨hS, hp, hlt.trans hwindow⟩ hne).2 b hb))

theorem Page.reachesUp (h : Page (fun p => S p ∧ lower ≤ key p ∧ key p < upper) (fun a b => key b ≤ key a) limit rows) :
    ReachesUp S key upper rows := by
  refine ⟨fun a ha => (h.mem a ha).2.2, fun p hS hp a ha hlt => ?_⟩
  by_contra hne
  have hwindow := (h.mem a ha).2.1
  exact absurd hlt (not_lt.mpr ((h.rest p ⟨hS, hwindow.trans hlt.le, hp⟩ hne).2 a ha))

/-- Rows that reach a bound from both sides make a stretch. -/
theorem ReachesDown.stretch_append (hnewer : ReachesDown S key m newer) (holder : ReachesUp S key m older)
    (hmem : ∀ p ∈ newer ++ older, S p) (hnodup : newer.Nodup ∧ older.Nodup)
    (hdesc : newer.Pairwise (fun a b => key b ≤ key a) ∧ older.Pairwise fun a b => key b ≤ key a) :
    Stretch S key (newer ++ older) := by
  have hsep : ∀ a ∈ newer, ∀ b ∈ older, key b < key a := fun a ha b hb => (holder.1 b hb).trans_le (hnewer.1 a ha)
  refine ⟨hmem, ?_, ?_, fun p hS a ha b hb hlt hgt => ?_⟩
  · exact List.nodup_append.mpr ⟨hnodup.1, hnodup.2, fun a ha b hb heq => absurd (hsep a ha b hb) (heq ▸ lt_irrefl _)⟩
  · exact List.pairwise_append.mpr ⟨hdesc.1, hdesc.2, fun a ha b hb => (hsep a ha b hb).le⟩
  · rw [List.mem_append] at ha hb ⊢
    rcases lt_or_ge (key p) m with hp | hp
    · -- the earlier end is before the bound, too
      have ha : a ∈ older := ha.resolve_left fun ha => absurd (hnewer.1 a ha) (not_le.mpr (hlt.trans hp))
      exact .inr (holder.2 p hS hp a ha hlt)
    · have hb : b ∈ newer := hb.resolve_right fun hb => absurd (hgt.trans (holder.1 b hb)) (not_lt.mpr hp)
      exact .inl (hnewer.2 p hS hp b hb hgt)
