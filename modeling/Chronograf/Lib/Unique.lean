/-
# Lists without repetition

Of the elements with one key the first one stays.

Key definition: `uniqBy`.
Key theorems: `uniqBy_sublist`, `nodup_uniqBy`, `mem_map_uniqBy`, `uniqBy_eq_self`.
-/
import Mathlib.Data.List.Nodup

variable {α β : Type} [DecidableEq β] {f : α → β}

/-- The first element of each key. -/
def uniqBy (f : α → β) : List α → List α
  | [] => []
  | a :: l => a :: (uniqBy f l).filter (f · ≠ f a)

theorem uniqBy_sublist : ∀ l : List α, List.Sublist (uniqBy f l) l
  | [] => List.Sublist.slnil
  | _ :: l => (List.filter_sublist.trans (uniqBy_sublist l)).cons_cons _

theorem nodup_uniqBy : ∀ l : List α, ((uniqBy f l).map f).Nodup
  | [] => List.nodup_nil
  | a :: l => by
    rw [uniqBy, List.map_cons, List.nodup_cons]
    refine ⟨fun hmem => ?_, (nodup_uniqBy l).sublist (List.filter_sublist.map f)⟩
    obtain ⟨b, hb, heq⟩ := List.mem_map.mp hmem
    exact of_decide_eq_true (List.mem_filter.mp hb).2 heq

theorem mem_map_uniqBy {b : β} : ∀ {l : List α}, b ∈ (uniqBy f l).map f ↔ b ∈ l.map f
  | [] => Iff.rfl
  | a :: l => by
    rw [uniqBy, List.map_cons, List.map_cons, List.mem_cons, List.mem_cons]
    refine or_congr_right' fun hne => ?_
    rw [← mem_map_uniqBy (l := l), List.mem_map, List.mem_map]
    constructor
    · rintro ⟨c, hc, rfl⟩
      exact ⟨c, List.mem_of_mem_filter hc, rfl⟩
    · rintro ⟨c, hc, rfl⟩
      exact ⟨c, List.mem_filter.mpr ⟨hc, decide_eq_true hne⟩, rfl⟩

theorem mem_uniqBy_id {l : List β} {b : β} : b ∈ uniqBy id l ↔ b ∈ l := by
  simpa only [List.map_id] using mem_map_uniqBy (f := id) (l := l) (b := b)

theorem uniqBy_eq_self : ∀ {l : List α}, (l.map f).Nodup → uniqBy f l = l
  | [], _ => rfl
  | a :: l, h => by
    obtain ⟨ha, hl⟩ := List.nodup_cons.mp h
    rw [uniqBy, uniqBy_eq_self hl, List.filter_eq_self.mpr]
    exact fun b hb => decide_eq_true fun heq => ha (List.mem_map.mpr ⟨b, hb, heq⟩)
