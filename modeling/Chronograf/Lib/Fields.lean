/-
# Objects as lists of fields

An object as the list of the fields it was built from: a later field replaces an
earlier one with its key. Two objects are the same if each key has the same value
in both.

Key definitions: `Fields.get`, `Fields.pick`, `Fields.Same`.
Key theorems: `Fields.get_append`, `Fields.get_pick`, `Fields.get_rename`.
-/
import Mathlib.Data.List.Basic

namespace Fields

variable {κ α : Type} [DecidableEq κ]

def get : List (κ × α) → κ → Option α
  | [], _ => none
  | f :: o, k => (get o k).or (if f.1 = k then some f.2 else none)

/-- The fields with the keys `ks`. -/
def pick (o : List (κ × α)) (ks : List κ) : List (κ × α) := ks.filterMap fun k => (get o k).map (k, ·)

def without (o : List (κ × α)) (k : κ) : List (κ × α) := o.filter (·.1 ≠ k)

/-- The keys of the fields renamed. -/
def rename (ρ : κ → κ) (o : List (κ × α)) : List (κ × α) := o.map fun f => (ρ f.1, f.2)

def Same (o o' : List (κ × α)) : Prop := ∀ k, get o k = get o' k

@[simp] theorem get_nil (k : κ) : get ([] : List (κ × α)) k = none := rfl

@[simp] theorem get_cons (f : κ × α) (o : List (κ × α)) (k : κ) :
    get (f :: o) k = (get o k).or (if f.1 = k then some f.2 else none) := rfl

@[simp] theorem get_append : ∀ (o o' : List (κ × α)) (k : κ), get (o ++ o') k = (get o' k).or (get o k)
  | [], o', k => by simp
  | f :: o, o', k => by rw [List.cons_append, get_cons, get_append o o' k, get_cons, Option.or_assoc]

theorem get_eq_none {o : List (κ × α)} {k : κ} : get o k = none ↔ ∀ f ∈ o, f.1 ≠ k := by
  induction o with
  | nil => simp
  | cons f o ih => by_cases hf : f.1 = k <;> simp [hf, ih]

theorem mem_of_get {o : List (κ × α)} {k : κ} {a : α} (h : get o k = some a) : (k, a) ∈ o := by
  induction o with
  | nil => simp at h
  | cons f o ih =>
    rw [get_cons, Option.or_eq_some_iff] at h
    rcases h with h | ⟨-, h⟩
    · exact List.mem_cons_of_mem _ (ih h)
    · split_ifs at h with hf
      obtain ⟨rfl⟩ := Option.some.inj h
      subst hf
      exact List.mem_cons_self

theorem get_of_mem {o : List (κ × α)} (h : (o.map (·.1)).Nodup) {k : κ} {a : α} (hmem : (k, a) ∈ o) : get o k = some a := by
  induction o with
  | nil => exact absurd hmem List.not_mem_nil
  | cons f o ih =>
    rw [List.map_cons, List.nodup_cons] at h
    rw [get_cons]
    rcases List.mem_cons.mp hmem with heq | hmem
    · have hnone : get o k = none := by
        refine get_eq_none.mpr fun g hg hk => h.1 ?_
        rw [← heq]
        exact List.mem_map.mpr ⟨g, hg, hk⟩
      simp [hnone, ← heq]
    · rw [ih h.2 hmem, Option.some_or]

theorem get_pick (o : List (κ × α)) (ks : List κ) (k : κ) : get (pick o ks) k = if k ∈ ks then get o k else none := by
  unfold pick
  induction ks with
  | nil => simp
  | cons k' ks ih =>
    rw [List.filterMap_cons]
    cases hk' : get o k' with
    | none =>
      rw [Option.map_none, ih]
      by_cases hk : k = k'
      · subst hk
        simp [hk']
      · simp [hk]
    | some a =>
      rw [Option.map_some, get_cons, ih]
      by_cases hk : k = k'
      · subst hk
        by_cases hmem : k ∈ ks <;> simp [hmem, hk']
      · simp [hk, Ne.symm hk]

theorem get_without (o : List (κ × α)) (k k' : κ) : get (without o k) k' = if k' = k then none else get o k' := by
  unfold without
  induction o with
  | nil => simp
  | cons f o ih =>
    rw [List.filter_cons]
    by_cases hf : f.1 = k
    · rw [if_neg (by simpa using hf), ih, get_cons]
      by_cases hk : k' = k
      · rw [if_pos hk, if_pos hk]
      · rw [if_neg hk, if_neg hk, if_neg fun h => hk (h.symm.trans hf), Option.or_none]
    · rw [if_pos (by simpa using hf), get_cons, get_cons, ih]
      by_cases hk : k' = k
      · rw [if_pos hk, if_pos hk, if_neg fun h => hf (h.trans hk), Option.or_none]
      · rw [if_neg hk, if_neg hk]

/-- A key that only `k` is renamed to has the value of `k`. -/
theorem get_rename {ρ : κ → κ} {o : List (κ × α)} {k : κ} (h : ∀ f ∈ o, ρ f.1 = ρ k → f.1 = k) :
    get (rename ρ o) (ρ k) = get o k := by
  unfold rename
  induction o with
  | nil => rfl
  | cons f o ih =>
    rw [List.map_cons, get_cons, get_cons, ih fun g hg => h g (List.mem_cons_of_mem _ hg)]
    by_cases hf : f.1 = k
    · rw [if_pos (congrArg ρ hf), if_pos hf]
    · rw [if_neg fun hρ => hf (h f List.mem_cons_self hρ), if_neg hf]

theorem get_rename_none {ρ : κ → κ} {o : List (κ × α)} {k : κ} (h : ∀ f ∈ o, ρ f.1 ≠ k) : get (rename ρ o) k = none := by
  refine get_eq_none.mpr fun f hf => ?_
  obtain ⟨g, hg, rfl⟩ := List.mem_map.mp hf
  exact h g hg

theorem Same.refl (o : List (κ × α)) : Same o o := fun _ => rfl

end Fields
