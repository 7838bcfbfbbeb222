/-
# Orders that respect what has to come before

Of the elements of a list some have to come before others. Two orders that
respect this differ by swaps of neighbours neither of which has to come first;
so what is computed along an order is the same for all of them if it does not
change when two such neighbours are swapped.

Key definition: `Extensions.Begins`.
Key theorem: `Extensions.same_for_all`.
-/
import Mathlib.Data.List.Induction
import Mathlib.Data.List.Nodup

namespace Extensions

variable {α β : Type} (before : α → α → Prop) (D : List α)

/-- The beginning of an order of `D`: every element once, after all that has to
come before it. -/
inductive Begins : List α → Prop
  | nil : Begins []
  | concat {l : List α} {b : α} (h : Begins l) (mem : b ∈ D) (new : b ∉ l) (ready : ∀ a ∈ D, before a b → a ∈ l) :
    Begins (l ++ [b])

variable {before D}

theorem begins_concat {l : List α} {b : α} :
    Begins before D (l ++ [b]) ↔ Begins before D l ∧ b ∈ D ∧ b ∉ l ∧ ∀ a ∈ D, before a b → a ∈ l := by
  constructor
  · intro h
    generalize hwhole : l ++ [b] = whole at h
    cases h with
    | nil => exact absurd hwhole (by simp)
    | @concat l' b' h mem new ready =>
      obtain ⟨rfl, hlast⟩ := List.append_inj' hwhole rfl
      obtain rfl : b = b' := by simpa using hlast
      exact ⟨h, mem, new, ready⟩
  · rintro ⟨h, mem, new, ready⟩
    exact .concat h mem new ready

theorem Begins.of_append {l m : List α} (h : Begins before D (l ++ m)) : Begins before D l := by
  induction m using List.reverseRecOn with
  | nil => rwa [List.append_nil] at h
  | append_singleton m b ih =>
    rw [← List.append_assoc] at h
    exact ih (begins_concat.mp h).1

/-- How an order goes on depends on which elements it has begun with only. -/
theorem Begins.of_perm {l l' m : List α} (h : Begins before D (l ++ m)) (hl' : Begins before D l') (hperm : l.Perm l') :
    Begins before D (l' ++ m) := by
  induction m using List.reverseRecOn with
  | nil => rwa [List.append_nil]
  | append_singleton m b ih =>
    rw [← List.append_assoc] at h ⊢
    obtain ⟨hbegin, hmem, hnew, hready⟩ := begins_concat.mp h
    have hsame : ∀ a, a ∈ l ++ m ↔ a ∈ l' ++ m := fun a => (hperm.append_right m).mem_iff
    exact .concat (ih hbegin) hmem (fun hb => hnew ((hsame b).mpr hb)) fun a ha hab => (hsame a).mp (hready a ha hab)

theorem Begins.nodup {l : List α} (h : Begins before D l) : l.Nodup := by
  induction h with
  | nil => exact List.nodup_nil
  | @concat l b _ _ new _ ih =>
    refine List.nodup_append.mpr ⟨ih, List.nodup_singleton _, fun a ha c hc heq => new ?_⟩
    rwa [← List.mem_singleton.mp hc, ← heq]

theorem Begins.subset {l : List α} (h : Begins before D l) : l ⊆ D := by
  induction h with
  | nil => exact List.nil_subset _
  | concat _ mem _ _ ih => exact List.append_subset.mpr ⟨ih, List.cons_subset.mpr ⟨mem, List.nil_subset _⟩⟩

/-- A list of all elements in which no later one has to come first. -/
theorem begins_of_pairwise {l : List α} (hnodup : l.Nodup) (hmem : ∀ a, a ∈ l ↔ a ∈ D)
    (hpairwise : l.Pairwise fun x y => ¬ before y x) (hirrefl : ∀ a ∈ D, ¬ before a a) : Begins before D l := by
  have hfront : ∀ p s, l = p ++ s → Begins before D p := by
    intro p
    induction p using List.reverseRecOn with
    | nil => exact fun _ _ => .nil
    | append_singleton p b ih =>
      intro s hl
      rw [List.append_assoc, List.singleton_append] at hl
      have hb : b ∈ D := (hmem b).mp (hl ▸ List.mem_append_right _ List.mem_cons_self)
      rw [hl] at hnodup hpairwise
      obtain ⟨-, -, hdisjoint⟩ := List.nodup_append.mp hnodup
      obtain ⟨-, hrest, -⟩ := List.pairwise_append.mp hpairwise
      refine .concat (ih _ hl) hb (fun hp => hdisjoint b hp b List.mem_cons_self rfl) fun a ha hab => ?_
      -- what has to come before `b` is neither `b` nor behind it
      have hwhere := (hmem a).mpr ha
      rw [hl] at hwhere
      rcases List.mem_append.mp hwhere with hp | hs
      · exact hp
      rcases List.mem_cons.mp hs with rfl | hs
      · exact absurd hab (hirrefl _ ha)
      · exact absurd hab (List.rel_of_pairwise_cons hrest hs)
  exact hfront l [] (List.append_nil l).symm

section Computed

variable {F : List α → β} (hcongr : ∀ l l' m, F l = F l' → F (l ++ m) = F (l' ++ m))
  (hswap : ∀ l a b, Begins before D (l ++ [a, b]) → Begins before D (l ++ [b, a]) → F (l ++ [a, b]) = F (l ++ [b, a]))

include hcongr hswap

/-- An element for which everything is ready can come at once. -/
theorem move_front {l : List α} {a : α} (hready : ∀ c ∈ D, before c a → c ∈ l) (pre post : List α)
    (h : Begins before D (l ++ pre ++ a :: post)) :
    Begins before D (l ++ a :: (pre ++ post)) ∧ F (l ++ pre ++ a :: post) = F (l ++ a :: (pre ++ post)) := by
  induction pre using List.reverseRecOn generalizing post with
  | nil => simpa using h
  | append_singleton pre x ih =>
    -- the swap of `x` and `a`, with what comes before them
    have hshape : l ++ (pre ++ [x]) ++ a :: post = l ++ pre ++ [x, a] ++ post := by simp
    have hshape' : l ++ pre ++ a :: (x :: post) = l ++ pre ++ [a, x] ++ post := by simp
    rw [hshape] at h
    have hpair : Begins before D (l ++ pre ++ [x] ++ [a]) := by simpa using h.of_append
    obtain ⟨hx, hmema, hnewa, -⟩ := begins_concat.mp hpair
    obtain ⟨hbegin, hmemx, hnewx, hreadyx⟩ := begins_concat.mp hx
    have ha : Begins before D (l ++ pre ++ [a]) :=
      .concat hbegin hmema (fun hmem => hnewa (List.mem_append_left _ hmem))
        fun c hc hca => List.mem_append_left _ (hready c hc hca)
    have hne : x ≠ a := fun heq => hnewa (heq ▸ List.mem_append_right _ (List.mem_singleton_self x))
    have hax : Begins before D (l ++ pre ++ [a] ++ [x]) := by
      refine .concat ha hmemx (fun hmem => ?_) fun c hc hcx => List.mem_append_left _ (hreadyx c hc hcx)
      rcases List.mem_append.mp hmem with hmem | hmem
      · exact hnewx hmem
      · exact hne (List.mem_singleton.mp hmem)
    have hswapped : Begins before D (l ++ pre ++ [a, x] ++ post) := by
      refine Begins.of_perm h (by simpa using hax) (List.Perm.append_left _ (List.Perm.swap a x []))
    have hsame : F (l ++ pre ++ [x, a] ++ post) = F (l ++ pre ++ [a, x] ++ post) :=
      hcongr _ _ post (hswap (l ++ pre) x a (by simpa using hpair) (by simpa using hax))
    obtain ⟨hmoved, heq⟩ := ih (x :: post) (hshape' ▸ hswapped)
    rw [hshape, hsame, ← hshape', heq]
    simpa using hmoved

/-- What is computed along two orders of the same elements is the same. -/
theorem same_for_all {l₁ l₂ : List α} : ∀ {l : List α}, Begins before D (l ++ l₁) → Begins before D (l ++ l₂) →
    l₁.Perm l₂ → F (l ++ l₁) = F (l ++ l₂) := by
  induction l₁ generalizing l₂ with
  | nil =>
    intro l _ _ hperm
    rw [hperm.nil_eq]
  | cons a l₁ ih =>
    intro l h₁ h₂ hperm
    obtain ⟨pre, post, rfl⟩ := List.append_of_mem (hperm.mem_iff.mp List.mem_cons_self)
    have hfirst : Begins before D (l ++ [a]) := by
      refine Begins.of_append (m := l₁) ?_
      simpa using h₁
    have hready := (begins_concat.mp hfirst).2.2.2
    obtain ⟨hmoved, heq⟩ := move_front hcongr hswap hready pre post (by simpa using h₂)
    have hrest : l₁.Perm (pre ++ post) := (hperm.trans List.perm_middle).cons_inv
    have hih := ih (l := l ++ [a]) (by simpa using h₁) (by simpa using hmoved) hrest
    rw [← List.append_assoc, heq]
    simpa using hih

end Computed

end Extensions
