/-
# Columns that are found by a key

The entries of many columns are put into a table, each into the last of the
places that have the key of its column; where two entries meet, the later one
stays. The places have labels, in ascending order, and are as many for each
label and key as there are columns. Every column has a place of its own, with
its label and with all its values, if and only if no other column with its key
has values, has a greater label, or comes later with an entry beside a value.

Key definitions: `Collated`, `Collated.Assignment`, `Collated.Separate`.
Key theorems: `exists_equiv_of_perm`, `exists_extension`, `Collated.assignment_iff`.
-/
import Mathlib.Data.Finset.Max
import Mathlib.Data.Fintype.Sum
import Mathlib.Data.List.Perm.Basic
import Mathlib.Data.Set.Card
import Mathlib.Order.Monotone.Basic

/-- Where the elements of a list stand after a permutation. -/
theorem exists_equiv_of_perm {β : Type} {as bs : List β} (h : as.Perm bs) :
    ∃ e : Fin as.length ≃ Fin bs.length, ∀ i, bs[e i] = as[i] := by
  classical
  exact ⟨⟨h.idxBij, h.symm.idxBij, h.idxBij_symm_leftInverse_idxBij, h.idxBij_leftInverse_idxBij_symm⟩,
    h.getElem_idxBij_eq_getElem⟩

/-- An assignment of some indices that keeps their labels can be completed. -/
theorem exists_extension {ι π L : Type} [Fintype ι] [Fintype π] (σ : ι ≃ π) {a : ι → L} {b : π → L}
    (hσ : ∀ i, b (σ i) = a i) {N : Set ι} {g : ι → π} (hinj : Set.InjOn g N) (hlabel : ∀ i ∈ N, b (g i) = a i) :
    ∃ f : ι → π, Function.Injective f ∧ (∀ i, b (f i) = a i) ∧ ∀ i ∈ N, f i = g i := by
  classical
  -- for each label, as many places as indices
  have hcard : ∀ l, Fintype.card { i // a i = l } = (Finset.univ.filter fun p => b p = l).card := by
    intro l
    rw [Fintype.card_subtype]
    refine Finset.card_bij (fun i _ => σ i) (fun i hi => ?_) (fun i _ j _ heq => σ.injective heq) fun p hp => ?_
    · rw [Finset.mem_filter] at hi ⊢
      exact ⟨Finset.mem_univ _, (hσ i).trans hi.2⟩
    · refine ⟨σ.symm p, ?_, σ.apply_symm_apply p⟩
      rw [Finset.mem_filter] at hp ⊢
      refine ⟨Finset.mem_univ _, ?_⟩
      rw [← hσ, σ.apply_symm_apply]
      exact hp.2
  have hextend : ∀ l, ∃ e : { i // a i = l } ≃ (Finset.univ.filter fun p => b p = l),
      ∀ i : { i // a i = l }, i.1 ∈ N → (e i : π) = g i.1 := by
    intro l
    refine Set.MapsTo.exists_equiv_extend_of_card_eq (s := { i | i.1 ∈ N }) (hcard l) (f := fun i => g i.1) ?_ ?_
    · intro i hi
      rw [Finset.mem_coe, Finset.mem_filter]
      exact ⟨Finset.mem_univ _, (hlabel i.1 hi).trans i.2⟩
    · intro i hi j hj heq
      exact Subtype.ext (hinj hi hj heq)
  choose e he using hextend
  have hb : ∀ l (i : { i // a i = l }), b (e l i) = l := fun l i => (Finset.mem_filter.mp (e l i).2).2
  refine ⟨fun i => e (a i) ⟨i, rfl⟩, fun i j heq => ?_, fun i => hb (a i) ⟨i, rfl⟩, fun i hi => he (a i) ⟨i, rfl⟩ hi⟩
  have hlabels : a i = a j := (hb (a i) ⟨i, rfl⟩).symm.trans ((congrArg b heq).trans (hb (a j) ⟨j, rfl⟩))
  have hcast : ∀ l (hi : a i = l) (hj : a j = l), (e l ⟨i, hi⟩ : π) = e l ⟨j, hj⟩ → i = j := by
    intro l hi hj heq
    exact congrArg Subtype.val ((e l).injective (Subtype.ext heq))
  have hindex : ∀ l (hl : a i = l), (e l ⟨i, hl⟩ : π) = e (a i) ⟨i, rfl⟩ := by
    rintro l rfl
    rfl
  exact hcast (a j) hlabels rfl ((hindex (a j) hlabels).trans heq)

/-- Columns with a label, a key and entries, an entry being a value or empty,
and the table that they are put into. -/
structure Collated (ι π L κ τ β : Type) [LinearOrder ι] [LinearOrder π] [LinearOrder L] where
  label : ι → L
  key : ι → κ
  entry : ι → τ → Option (Option β)
  /-- The places of the columns, before they are found by key. -/
  sorted : ι ≃ π
  placeLabel : π → L
  placeKey : π → κ
  shown : τ → π → Option β
  place : ι → π
  label_sorted : ∀ i, placeLabel (sorted i) = label i
  key_sorted : ∀ i, placeKey (sorted i) = key i
  ascending : Monotone placeLabel
  place_key : ∀ i, placeKey (place i) = key i
  place_last : ∀ i p, placeKey p = key i → p ≤ place i
  shown_last : ∀ i t v, entry i t = some v → (∀ j, i < j → key j = key i → entry j t = none) → shown t (place i) = v
  shown_none : ∀ t p, (∀ i, place i = p → entry i t = none) → shown t p = none

namespace Collated

variable {ι π L κ τ β : Type} [LinearOrder ι] [LinearOrder π] [LinearOrder L] (C : Collated ι π L κ τ β)

def value (i : ι) (t : τ) : Option β := (C.entry i t).join

/-- The column is not empty. -/
def HasValue (i : ι) : Prop := ∃ t, C.value i t ≠ none

/-- A place for each column, with its label and its values. -/
def Assignment (f : ι → π) : Prop :=
  Function.Injective f ∧ (∀ i, C.placeLabel (f i) = C.label i) ∧ ∀ i t, C.shown t (f i) = C.value i t

/-- No other column gets in the way of one that has values. -/
def Separate : Prop := ∀ i j, i ≠ j → C.key i = C.key j → C.HasValue i →
  ¬ C.HasValue j ∧ C.label j ≤ C.label i ∧ ∀ t, i < j → C.value i t ≠ none → C.entry j t = none

theorem place_eq_iff {i j : ι} : C.place i = C.place j ↔ C.key i = C.key j := by
  constructor
  · intro h
    rw [← C.place_key i, h, C.place_key j]
  · intro h
    refine le_antisymm (C.place_last j _ ?_) (C.place_last i _ ?_)
    · rw [C.place_key i, h]
    · rw [C.place_key j, h]

/-- The label of the place is that of a column with the key. -/
theorem label_le_place (i : ι) : C.label i ≤ C.placeLabel (C.place i) := by
  rw [← C.label_sorted i]
  exact C.ascending (C.place_last i _ (C.key_sorted i))

variable [Fintype ι]

/-- What is shown is the entry of the last column that has one. -/
theorem exists_shown {t : τ} {p : π} {i : ι} {v : Option β} (hp : C.place i = p) (hi : C.entry i t = some v) :
    ∃ j, i ≤ j ∧ C.place j = p ∧ (C.entry j t).isSome ∧ C.shown t p = C.value j t := by
  classical
  let S := Finset.univ.filter fun j => C.place j = p ∧ (C.entry j t).isSome
  have hmem : i ∈ S := by
    rw [Finset.mem_filter]
    exact ⟨Finset.mem_univ i, hp, by rw [hi]; rfl⟩
  obtain ⟨j, hj, hmax⟩ := S.exists_max_image id ⟨i, hmem⟩
  obtain ⟨-, hplace, hsome⟩ := Finset.mem_filter.mp hj
  obtain ⟨w, hw⟩ := Option.isSome_iff_exists.mp hsome
  refine ⟨j, hmax i hmem, hplace, hsome, ?_⟩
  have hshown := C.shown_last j t w hw fun k hk hkey => by
    by_contra hne
    have hk' : k ∈ S := by
      rw [Finset.mem_filter]
      refine ⟨Finset.mem_univ k, (C.place_eq_iff.mpr hkey).trans hplace, Option.isSome_iff_ne_none.mpr hne⟩
    exact absurd (hmax k hk') (not_le.mpr hk)
  rw [← hplace, hshown, value, hw]
  rfl

/-- Where a value is shown, one of these columns has it. -/
theorem exists_of_shown {t : τ} {p : π} (h : C.shown t p ≠ none) : ∃ i, C.place i = p ∧ C.shown t p = C.value i t := by
  have hentry : ∃ i, C.place i = p ∧ C.entry i t ≠ none := by
    by_contra hnone
    exact h (C.shown_none t p fun i hi => not_not.mp fun hne => hnone ⟨i, hi, hne⟩)
  obtain ⟨i, hp, hi⟩ := hentry
  obtain ⟨v, hv⟩ := Option.ne_none_iff_exists'.mp hi
  obtain ⟨j, -, hplace, -, hshown⟩ := C.exists_shown hp hv
  exact ⟨j, hplace, hshown⟩

variable {C}

section Assigned

variable {f : ι → π} (hf : C.Assignment f)

include hf

/-- If these columns take the places that they are put in, their labels are those of the places. -/
theorem label_place {N : Set ι} {P : Set π} (hinj : Set.InjOn C.place N) (hplace : C.place '' N = P) (himage : f '' N = P)
    {i : ι} (hi : i ∈ N) : C.label i = C.placeLabel (C.place i) := by
  refine le_antisymm (C.label_le_place i) ?_
  -- as many columns as places have a label from this one on
  let P' := { p ∈ P | C.placeLabel (C.place i) ≤ C.placeLabel p }
  let A := { k ∈ N | C.placeLabel (C.place i) ≤ C.placeLabel (C.place k) }
  let B := { k ∈ N | C.placeLabel (C.place i) ≤ C.label k }
  have hA : C.place '' A = P' := by
    ext p
    constructor
    · rintro ⟨k, ⟨hk, hle⟩, rfl⟩
      exact ⟨hplace ▸ Set.mem_image_of_mem _ hk, hle⟩
    · rintro ⟨hp, hle⟩
      obtain ⟨k, hk, rfl⟩ := hplace ▸ hp
      exact ⟨k, ⟨hk, hle⟩, rfl⟩
  have hB : f '' B = P' := by
    ext p
    constructor
    · rintro ⟨k, ⟨hk, hle⟩, rfl⟩
      exact ⟨himage ▸ Set.mem_image_of_mem _ hk, (hf.2.1 k).symm ▸ hle⟩
    · rintro ⟨hp, hle⟩
      obtain ⟨k, hk, rfl⟩ := himage ▸ hp
      exact ⟨k, ⟨hk, hf.2.1 k ▸ hle⟩, rfl⟩
  have hcard : A.ncard = B.ncard := by
    rw [← Set.InjOn.ncard_image (hinj.mono fun k hk => hk.1), hA, ← hB, Set.ncard_image_of_injective B hf.1]
  have hsub : B ⊆ A := fun k hk => ⟨hk.1, hk.2.trans (C.label_le_place k)⟩
  have heq : B = A := Set.eq_of_subset_of_ncard_le hsub hcard.le (Set.toFinite A)
  have hmem : i ∈ B := heq ▸ (⟨hi, le_refl _⟩ : i ∈ A)
  exact hmem.2

/-- If the places of the columns in `N` are those that `P` holds of, each has one of its own. -/
theorem place_injOn [Fintype π] {N : Set ι} {P : Set π} (hN : ∀ i ∈ N, f i ∈ P) (hP : ∀ p ∈ P, ∃ i ∈ N, C.place i = p) :
    Set.InjOn C.place N ∧ C.place '' N = P ∧ f '' N = P := by
  classical
  have hsub : P ⊆ C.place '' N := fun p hp => by
    obtain ⟨i, hi, rfl⟩ := hP p hp
    exact ⟨i, hi, rfl⟩
  have hfsub : f '' N ⊆ P := by
    rintro _ ⟨i, hi, rfl⟩
    exact hN i hi
  have hfcard : (f '' N).ncard = N.ncard := Set.ncard_image_of_injective N hf.1
  have hle : (C.place '' N).ncard ≤ N.ncard := Set.ncard_image_le (Set.toFinite N)
  have h₁ := Set.ncard_le_ncard hsub (Set.toFinite _)
  have h₂ := Set.ncard_le_ncard hfsub (Set.toFinite _)
  refine ⟨?_, ?_, ?_⟩
  · exact Set.injOn_of_ncard_image_eq (by omega) (Set.toFinite N)
  · exact (Set.eq_of_subset_of_ncard_le hsub (by omega) (Set.toFinite _)).symm
  · exact Set.eq_of_subset_of_ncard_le hfsub (by omega) (Set.toFinite _)

end Assigned

theorem separate_of_assignment [Fintype π] {f : ι → π} (hf : C.Assignment f) : C.Separate := by
  -- a column with a value is shown somewhere, and what is shown comes from one
  have hN : ∀ i ∈ { i | C.HasValue i }, f i ∈ { p | ∃ t, C.shown t p ≠ none } := by
    rintro i ⟨t, ht⟩
    exact ⟨t, hf.2.2 i t ▸ ht⟩
  have hP : ∀ p ∈ { p | ∃ t, C.shown t p ≠ none }, ∃ i ∈ { i | C.HasValue i }, C.place i = p := by
    rintro p ⟨t, ht⟩
    obtain ⟨i, hp, hshown⟩ := C.exists_of_shown ht
    exact ⟨i, ⟨t, hshown ▸ ht⟩, hp⟩
  obtain ⟨hinj, hplace, himage⟩ := place_injOn hf hN hP
  intro i j hij hkey hi
  have hj : ¬ C.HasValue j := fun hj => hij (hinj hi hj (C.place_eq_iff.mpr hkey))
  refine ⟨hj, ?_, fun t hlt hvalue => ?_⟩
  · rw [← not_lt]
    intro hlt
    refine absurd (label_place hf hinj hplace himage hi) ?_
    rw [C.place_eq_iff.mpr hkey]
    exact ((lt_of_lt_of_le hlt (C.label_le_place j)).ne').symm
  · -- at this time, too, every column with a value is shown in its place
    by_contra hentry
    obtain ⟨v, hv⟩ := Option.ne_none_iff_exists'.mp hentry
    have hNt : ∀ i ∈ { i | C.value i t ≠ none }, f i ∈ { p | C.shown t p ≠ none } := by
      intro i hi
      have hshown : C.shown t (f i) ≠ none := (hf.2.2 i t).symm ▸ hi
      exact hshown
    have hPt : ∀ p ∈ { p | C.shown t p ≠ none }, ∃ i ∈ { i | C.value i t ≠ none }, C.place i = p := by
      intro p hp
      obtain ⟨i, hip, hshown⟩ := C.exists_of_shown hp
      have hi : C.value i t ≠ none := hshown ▸ hp
      exact ⟨i, hi, hip⟩
    obtain ⟨-, hplace, -⟩ := place_injOn hf hNt hPt
    have hshown : C.shown t (C.place i) ≠ none := by
      have hmem : C.place i ∈ { p | C.shown t p ≠ none } := hplace ▸ Set.mem_image_of_mem _ hvalue
      exact hmem
    obtain ⟨k, hjk, hk, -, heq⟩ := C.exists_shown (C.place_eq_iff.mpr hkey.symm) hv
    have hkvalue : C.HasValue k := ⟨t, heq ▸ hshown⟩
    have hki : k = i := hinj hkvalue hi hk
    exact absurd (hlt.trans_le hjk) (by rw [hki]; exact lt_irrefl i)

theorem assignment_of_separate [Fintype π] (h : C.Separate) : ∃ f, C.Assignment f := by
  have hinj : Set.InjOn C.place { i | C.HasValue i } := by
    intro i hi j hj heq
    by_contra hne
    exact (h i j hne (C.place_eq_iff.mp heq) hi).1 hj
  have hlabel : ∀ i ∈ { i | C.HasValue i }, C.placeLabel (C.place i) = C.label i := by
    intro i hi
    have hplace : C.place i = C.sorted (C.sorted.symm (C.place i)) := (C.sorted.apply_symm_apply _).symm
    generalize C.sorted.symm (C.place i) = j at hplace
    have hkey : C.key i = C.key j := by rw [← C.place_key i, hplace, C.key_sorted]
    refine le_antisymm ?_ (C.label_le_place i)
    rw [hplace, C.label_sorted]
    by_cases hij : i = j
    · rw [hij]
    · exact (h i j hij hkey hi).2.1
  obtain ⟨f, hf, hlabels, hplaces⟩ := exists_extension C.sorted C.label_sorted hinj hlabel
  refine ⟨f, hf, hlabels, fun i t => ?_⟩
  by_cases hi : C.HasValue i
  · rw [hplaces i hi]
    cases hentry : C.entry i t with
    | none =>
      have hvalue : C.value i t = none := by rw [value, hentry]; rfl
      rw [hvalue]
      by_contra hshown
      obtain ⟨j, hj, heq⟩ := C.exists_of_shown hshown
      have hjv : C.HasValue j := ⟨t, heq ▸ hshown⟩
      obtain rfl := hinj hjv hi hj
      exact hshown (heq.trans hvalue)
    | some v =>
      obtain ⟨j, hij, hj, hsome, heq⟩ := C.exists_shown rfl hentry
      rw [heq]
      rcases eq_or_lt_of_le hij with rfl | hlt
      · rfl
      · have hkey := C.place_eq_iff.mp hj
        obtain ⟨hempty, -, hlater⟩ := h i j hlt.ne hkey.symm hi
        have hjv : C.value j t = none := by
          by_contra hne
          exact hempty ⟨t, hne⟩
        rw [hjv]
        by_contra hne
        rw [hlater t hlt fun hvalue => hne hvalue.symm] at hsome
        cases hsome
  · have hvalue : C.value i t = none := by
      by_contra hne
      exact hi ⟨t, hne⟩
    rw [hvalue]
    by_contra hshown
    obtain ⟨j, hj, heq⟩ := C.exists_of_shown hshown
    have hjv : C.HasValue j := ⟨t, heq ▸ hshown⟩
    rw [← hplaces j hjv] at hj
    exact hi (hf hj ▸ hjv)

/-- The columns can be told apart in the table if and only if they are separate. -/
theorem assignment_iff [Fintype π] : (∃ f, C.Assignment f) ↔ C.Separate :=
  ⟨fun ⟨_, hf⟩ => separate_of_assignment hf, assignment_of_separate⟩

end Collated
