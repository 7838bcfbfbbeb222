/-
# Conditions made of AND and OR

A condition without negation over atoms of any type. It holds if and only if
one of its alternatives holds, which are lists of atoms; it stays true when
more atoms hold; and whether it fails when some atoms do can be read off its
shape.

Key definitions: `Formula`, `Formula.alternatives`, `Formula.Needs`.
Key theorems: `Formula.holds_iff_alternative`, `Formula.holds_mono`, `Formula.needs_iff`.
-/
import Mathlib.Data.List.Basic

inductive Formula (α : Type)
  | atom (a : α)
  | and (l r : Formula α)
  | or (l r : Formula α)
  deriving DecidableEq

namespace Formula

variable {α : Type}

def Holds (v : α → Prop) : Formula α → Prop
  | atom a => v a
  | and l r => l.Holds v ∧ r.Holds v
  | or l r => l.Holds v ∨ r.Holds v

instance decidableHolds (v : α → Prop) [DecidablePred v] : (φ : Formula α) → Decidable (φ.Holds v)
  | atom a => inferInstanceAs (Decidable (v a))
  | and l r =>
    have := decidableHolds v l
    have := decidableHolds v r
    inferInstanceAs (Decidable (_ ∧ _))
  | or l r =>
    have := decidableHolds v l
    have := decidableHolds v r
    inferInstanceAs (Decidable (_ ∨ _))

def atoms : Formula α → List α
  | atom a => [a]
  | and l r => l.atoms ++ r.atoms
  | or l r => l.atoms ++ r.atoms

/-- The ways in which the condition can hold: the atoms of each. -/
def alternatives : Formula α → List (List α)
  | atom a => [[a]]
  | and l r => l.alternatives.flatMap fun A => r.alternatives.map (A ++ ·)
  | or l r => l.alternatives ++ r.alternatives

/-- The condition cannot hold when the atoms in `s` do not: on every way there
is one of them. -/
def Needs (s : α → Prop) : Formula α → Prop
  | atom a => s a
  | and l r => l.Needs s ∨ r.Needs s
  | or l r => l.Needs s ∧ r.Needs s

instance decidableNeeds (s : α → Prop) [DecidablePred s] : (φ : Formula α) → Decidable (φ.Needs s)
  | atom a => inferInstanceAs (Decidable (s a))
  | and l r =>
    have := decidableNeeds s l
    have := decidableNeeds s r
    inferInstanceAs (Decidable (_ ∨ _))
  | or l r =>
    have := decidableNeeds s l
    have := decidableNeeds s r
    inferInstanceAs (Decidable (_ ∧ _))

theorem atoms_ne_nil : ∀ φ : Formula α, φ.atoms ≠ []
  | atom _ => List.cons_ne_nil _ _
  | and l _ => List.append_ne_nil_of_left_ne_nil l.atoms_ne_nil _
  | or l _ => List.append_ne_nil_of_left_ne_nil l.atoms_ne_nil _

theorem mem_alternatives_and {l r : Formula α} {A : List α} :
    A ∈ (and l r).alternatives ↔ ∃ B ∈ l.alternatives, ∃ C ∈ r.alternatives, B ++ C = A := by
  simp [alternatives]

theorem mem_alternatives_or {l r : Formula α} {A : List α} :
    A ∈ (or l r).alternatives ↔ A ∈ l.alternatives ∨ A ∈ r.alternatives := List.mem_append

theorem mem_atoms_of_mem_alternative : ∀ {φ : Formula α} {A : List α} {a : α}, A ∈ φ.alternatives → a ∈ A → a ∈ φ.atoms
  | atom _, A, a, hA, ha => by
    rwa [List.mem_singleton.mp hA] at ha
  | and l r, A, a, hA, ha => by
    obtain ⟨B, hB, C, hC, rfl⟩ := mem_alternatives_and.mp hA
    rcases List.mem_append.mp ha with ha | ha
    · exact List.mem_append_left _ (mem_atoms_of_mem_alternative hB ha)
    · exact List.mem_append_right _ (mem_atoms_of_mem_alternative hC ha)
  | or l r, A, a, hA, ha => by
    rcases mem_alternatives_or.mp hA with hA | hA
    · exact List.mem_append_left _ (mem_atoms_of_mem_alternative hA ha)
    · exact List.mem_append_right _ (mem_atoms_of_mem_alternative hA ha)

/-- The condition holds if and only if all atoms of an alternative do. -/
theorem holds_iff_alternative {v : α → Prop} : ∀ {φ : Formula α}, φ.Holds v ↔ ∃ A ∈ φ.alternatives, ∀ a ∈ A, v a
  | atom a => by simp [Holds, alternatives]
  | and l r => by
    rw [Holds, holds_iff_alternative, holds_iff_alternative]
    constructor
    · rintro ⟨⟨B, hB, hvB⟩, C, hC, hvC⟩
      refine ⟨B ++ C, mem_alternatives_and.mpr ⟨B, hB, C, hC, rfl⟩, fun a ha => ?_⟩
      exact (List.mem_append.mp ha).elim (hvB a) (hvC a)
    · rintro ⟨A, hA, hv⟩
      obtain ⟨B, hB, C, hC, rfl⟩ := mem_alternatives_and.mp hA
      exact ⟨⟨B, hB, fun a ha => hv a (List.mem_append_left _ ha)⟩,
        C, hC, fun a ha => hv a (List.mem_append_right _ ha)⟩
  | or l r => by
    rw [Holds, holds_iff_alternative, holds_iff_alternative]
    constructor
    · rintro (⟨A, hA, hv⟩ | ⟨A, hA, hv⟩)
      · exact ⟨A, mem_alternatives_or.mpr (Or.inl hA), hv⟩
      · exact ⟨A, mem_alternatives_or.mpr (Or.inr hA), hv⟩
    · rintro ⟨A, hA, hv⟩
      exact (mem_alternatives_or.mp hA).imp (⟨A, ·, hv⟩) (⟨A, ·, hv⟩)

/-- It stays true when more of its atoms hold. -/
theorem holds_mono {v w : α → Prop} {φ : Formula α} (h : ∀ a ∈ φ.atoms, v a → w a) (hv : φ.Holds v) : φ.Holds w := by
  obtain ⟨A, hA, hall⟩ := holds_iff_alternative.mp hv
  exact holds_iff_alternative.mpr ⟨A, hA, fun a ha => h a (mem_atoms_of_mem_alternative hA ha) (hall a ha)⟩

theorem holds_foldl_and {v : α → Prop} (φs : List (Formula α)) (φ : Formula α) :
    (φs.foldl and φ).Holds v ↔ φ.Holds v ∧ ∀ ψ ∈ φs, ψ.Holds v := by
  induction φs generalizing φ with
  | nil => simp
  | cons ψ φs ih => simp [ih, Holds, and_assoc]

theorem holds_foldl_or {v : α → Prop} (φs : List (Formula α)) (φ : Formula α) :
    (φs.foldl or φ).Holds v ↔ φ.Holds v ∨ ∃ ψ ∈ φs, ψ.Holds v := by
  induction φs generalizing φ with
  | nil => simp
  | cons ψ φs ih => simp [ih, Holds, or_assoc]

/-- When the atoms in `s` fail and all others hold, it fails if and only if it needs them. -/
theorem needs_iff {s : α → Prop} : ∀ {φ : Formula α}, φ.Needs s ↔ ¬ φ.Holds (¬ s ·)
  | atom a => by simp [Needs, Holds]
  | and l r => by
    rw [Needs, Holds, needs_iff, needs_iff, not_and_or]
  | or l r => by
    rw [Needs, Holds, needs_iff, needs_iff, not_or]

end Formula
