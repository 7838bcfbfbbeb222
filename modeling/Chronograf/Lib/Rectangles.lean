/-
# Rectangles on a grid

A rectangle is the set of its unit squares. Two rectangles that are not empty
are disjoint if one of them ends where or before the other one begins, in one
direction.

Key definitions: `Rect`, `Rect.squares`.
Key theorem: `Rect.disjoint_iff`.
-/
import Mathlib

structure Rect where
  x : ℤ
  y : ℤ
  w : ℤ
  h : ℤ
  deriving DecidableEq

namespace Rect

/-- The unit squares, each by its corner at the origin's side. -/
def squares (r : Rect) : Set (ℤ × ℤ) := fun p => (r.x ≤ p.1 ∧ p.1 < r.x + r.w) ∧ r.y ≤ p.2 ∧ p.2 < r.y + r.h

def Nonempty (r : Rect) : Prop := 0 < r.w ∧ 0 < r.h

theorem disjoint_iff {a b : Rect} (ha : a.Nonempty) (hb : b.Nonempty) : Disjoint a.squares b.squares ↔
    a.x + a.w ≤ b.x ∨ b.x + b.w ≤ a.x ∨ a.y + a.h ≤ b.y ∨ b.y + b.h ≤ a.y := by
  obtain ⟨haw, hah⟩ := ha
  obtain ⟨hbw, hbh⟩ := hb
  rw [Set.disjoint_left]
  constructor
  · -- if neither ends before the other, the later corner lies in both
    intro h
    by_contra hover
    have hcorner : (max a.x b.x, max a.y b.y) ∈ a.squares := ⟨⟨by simp, by simp; omega⟩, by simp, by simp; omega⟩
    refine h hcorner ⟨⟨by simp, by simp; omega⟩, by simp, by simp; omega⟩
  · rintro h ⟨i, j⟩ ⟨⟨hax, hax'⟩, hay, hay'⟩ ⟨⟨hbx, hbx'⟩, hby, hby'⟩
    dsimp only at *
    omega

end Rect
