/-
# Alternatives for each key

A row has a value for each key. A list of comparisons of keys with values
describes the rows that have one of the values asked for under each key, and
none of the values excluded. When that is what a formula over the same
comparisons means can be read off its shape: each of its alternatives that can
hold asks for a value of every key and excludes all that is excluded, and it
holds whatever values are chosen, one for each key.

Key definitions: `Compares`, `Describes`, `Choices.choices`, `IsProduct`.
Key theorem: `describes_iff`.
-/
import Chronograf.Lib.Formula
import Mathlib.Data.Fintype.EquivFin
import Mathlib.Data.List.Sections

/-! ### One of each list -/

namespace Choices

variable {κ ν : Type}

/-- The choices of one value for each key. -/
def choices (lists : List (κ × List ν)) : List (List (κ × ν)) := (lists.map fun t => t.2.map (t.1, ·)).sections

theorem mem_choices {lists : List (κ × List ν)} {c : List (κ × ν)} (h : c ∈ choices lists) :
    c.map Prod.fst = lists.map Prod.fst ∧ ∀ t ∈ lists, ∃ v ∈ t.2, (t.1, v) ∈ c := by
  rw [choices, List.mem_sections, List.forall₂_map_right_iff] at h
  induction h with
  | nil => exact ⟨rfl, fun t ht => absurd ht List.not_mem_nil⟩
  | @cons x t c lists hx _ ih =>
    obtain ⟨v, hv, rfl⟩ := List.mem_map.mp hx
    refine ⟨congrArg (t.1 :: ·) ih.1, List.forall_mem_cons.mpr ⟨⟨v, hv, List.mem_cons_self⟩, fun t' ht' => ?_⟩⟩
    obtain ⟨w, hw, hmem⟩ := ih.2 t' ht'
    exact ⟨w, hw, List.mem_cons_of_mem _ hmem⟩

theorem choice_mem {lists : List (κ × List ν)} {g : κ → ν} (h : ∀ t ∈ lists, g t.1 ∈ t.2) :
    lists.map (fun t => (t.1, g t.1)) ∈ choices lists := by
  rw [choices, List.mem_sections, List.forall₂_map_left_iff, List.forall₂_map_right_iff, List.forall₂_same]
  exact fun t ht => List.mem_map.mpr ⟨g t.1, h t ht, rfl⟩

/-- Consistent values, and another one for everything else. -/
theorem exists_row [DecidableEq κ] {c : List (κ × ν)} (h : ∀ x ∈ c, ∀ y ∈ c, x.1 = y.1 → x.2 = y.2) (z : ν) :
    ∃ row : κ → ν, (∀ x ∈ c, row x.1 = x.2) ∧ ∀ k, k ∉ c.map Prod.fst → row k = z := by
  refine ⟨fun k => ((c.find? (·.1 = k)).map Prod.snd).getD z, fun x hx => ?_, fun k hk => ?_⟩
  · have hfound : (c.find? (·.1 = x.1)).isSome := List.find?_isSome.mpr ⟨x, hx, decide_eq_true rfl⟩
    obtain ⟨y, hy⟩ := Option.isSome_iff_exists.mp hfound
    simp only [hy, Option.map_some, Option.getD_some]
    exact h y (List.mem_of_find?_eq_some hy) x hx (by simpa using List.find?_some hy)
  · have hnone : c.find? (·.1 = k) = none := by
      rw [List.find?_eq_none]
      intro x hx heq
      exact hk (List.mem_map.mpr ⟨x, hx, of_decide_eq_true heq⟩)
    simp only [hnone, Option.map_none, Option.getD_none]

end Choices

/-! ### Comparisons -/

/-- Comparisons of a key with a value: the key has it, or has another one. -/
class Compares (α : Type) (κ ν : outParam Type) where
  key : α → κ
  value : α → ν
  isEqual : α → Bool

namespace Compares

variable {α κ ν : Type} [Compares α κ ν]

def Holds (row : κ → ν) (a : α) : Prop := if isEqual a then row (key a) = value a else row (key a) ≠ value a

/-- The rows with one of the values asked for under each key, and none of those excluded. -/
def Describes (cs : List α) (row : κ → ν) : Prop :=
  ∀ a ∈ cs, if isEqual a then ∃ b ∈ cs, isEqual b = true ∧ key b = key a ∧ row (key b) = value b
    else row (key a) ≠ value a

/-- Under each key, values are either asked for or excluded. -/
def Uniform (cs : List α) : Prop := ∀ a ∈ cs, ∀ b ∈ cs, key a = key b → isEqual a = isEqual b

theorem holds_of_isEqual {row : κ → ν} {a : α} (h : isEqual a = true) : Holds row a ↔ row (key a) = value a := by
  rw [Holds, if_pos h]

theorem holds_of_not_isEqual {row : κ → ν} {a : α} (h : isEqual a = false) : Holds row a ↔ row (key a) ≠ value a := by
  rw [Holds, if_neg (Bool.eq_false_iff.mp h)]

/-- No key is to have two values. -/
def Consistent (A : List α) : Prop :=
  ∀ a ∈ A, ∀ b ∈ A, isEqual a = true → isEqual b = true → key a = key b → value a = value b

/-- The comparison excludes a value, or asks for the one chosen. -/
def Chosen (c : List (κ × ν)) (a : α) : Prop := isEqual a = true → (key a, value a) ∈ c

/-- The alternative asks for a value of the key, too, or makes the same exclusion. -/
def Covers (A : List α) (a : α) : Prop :=
  ∃ b ∈ A, isEqual b = isEqual a ∧ key b = key a ∧ (isEqual a = false → value b = value a)

/-- The keys that values are asked for under, with these values. -/
def asked [DecidableEq κ] (cs : List α) : List (κ × List ν) :=
  ((cs.filter isEqual).map key).dedup.map fun k => (k, (cs.filter fun a => isEqual a && key a = k).map value)

/-- The formula is the product of the values asked for under each key, without those excluded. -/
def IsProduct [DecidableEq κ] (φ : Formula α) : Prop :=
  (∀ A ∈ φ.alternatives, Consistent A → ∀ a ∈ φ.atoms, Covers A a) ∧
    ∀ c ∈ Choices.choices (asked φ.atoms), φ.Holds (Chosen c)

section Decidable

variable [DecidableEq κ] [DecidableEq ν]

instance (A : List α) : Decidable (Consistent A) := inferInstanceAs (Decidable (∀ _ ∈ A, _))

instance (c : List (κ × ν)) : DecidablePred (Chosen (α := α) c) := fun _ => inferInstanceAs (Decidable (_ → _))

instance (A : List α) (a : α) : Decidable (Covers A a) := inferInstanceAs (Decidable (∃ _ ∈ A, _))

instance (φ : Formula α) : Decidable (IsProduct φ) := inferInstanceAs (Decidable (_ ∧ _))

end Decidable

section Asked

variable [DecidableEq κ]

theorem mem_asked {cs : List α} {t : κ × List ν} (h : t ∈ asked cs) :
    (∃ a ∈ cs, isEqual a = true ∧ key a = t.1) ∧
      ∀ v, v ∈ t.2 ↔ ∃ a ∈ cs, isEqual a = true ∧ key a = t.1 ∧ value a = v := by
  obtain ⟨k, hk, rfl⟩ := List.mem_map.mp h
  obtain ⟨a, ha, rfl⟩ := List.mem_map.mp (List.mem_dedup.mp hk)
  obtain ⟨ha, heq⟩ := List.mem_filter.mp ha
  refine ⟨⟨a, ha, heq, rfl⟩, fun v => ?_⟩
  simp only [List.mem_map, List.mem_filter, Bool.and_eq_true, decide_eq_true_eq, and_assoc]

theorem exists_asked {cs : List α} {a : α} (ha : a ∈ cs) (h : isEqual a = true) : ∃ t ∈ asked cs, t.1 = key a :=
  ⟨_, List.mem_map.mpr ⟨key a, List.mem_dedup.mpr (List.mem_map_of_mem (List.mem_filter.mpr ⟨ha, h⟩)), rfl⟩, rfl⟩

theorem nodup_asked (cs : List α) : ((asked cs).map Prod.fst).Nodup := by
  rw [asked, List.map_map]
  have hid : (Prod.fst ∘ fun k => (k, (cs.filter fun a => isEqual a && key a = k).map value)) = @id κ := rfl
  rw [hid, List.map_id]
  exact List.nodup_dedup _

end Asked

/-- A value that no comparison has. -/
theorem exists_fresh [Infinite ν] (cs : List α) : ∃ z : ν, ∀ a ∈ cs, value a ≠ z := by
  classical
  obtain ⟨z, hz⟩ := Infinite.exists_notMem_finset (cs.map value).toFinset
  refine ⟨z, fun a ha heq => hz ?_⟩
  rw [List.mem_toFinset, List.mem_map]
  exact ⟨a, ha, heq⟩

variable {φ : Formula α}

theorem describes_of_holds (hcovers : ∀ A ∈ φ.alternatives, Consistent A → ∀ a ∈ φ.atoms, Covers A a) {row : κ → ν}
    (h : φ.Holds (Holds row)) : Describes φ.atoms row := by
  obtain ⟨A, hA, hall⟩ := Formula.holds_iff_alternative.mp h
  have hcons : Consistent A := by
    intro a ha b hb haeq hbeq hkey
    rw [← (holds_of_isEqual haeq).mp (hall a ha), ← (holds_of_isEqual hbeq).mp (hall b hb), hkey]
  intro a ha
  obtain ⟨b, hb, heq, hkey, hvalue⟩ := hcovers A hA hcons a ha
  split_ifs with hequal
  · have hbeq := heq.trans hequal
    exact ⟨b, Formula.mem_atoms_of_mem_alternative hA hb, hbeq, hkey, (holds_of_isEqual hbeq).mp (hall b hb)⟩
  · have hne := Bool.eq_false_iff.mpr hequal
    rw [← hkey, ← hvalue hne]
    exact (holds_of_not_isEqual (heq.trans hne)).mp (hall b hb)

variable [DecidableEq κ]

theorem holds_of_describes (hchoices : ∀ c ∈ Choices.choices (asked φ.atoms), φ.Holds (Chosen c)) {row : κ → ν}
    (h : Describes φ.atoms row) : φ.Holds (Holds row) := by
  -- the values that the row has are a choice
  have hc : (asked φ.atoms).map (fun t => (t.1, row t.1)) ∈ Choices.choices (asked φ.atoms) := by
    refine Choices.choice_mem fun t ht => ?_
    obtain ⟨⟨a, ha, heq, hkey⟩, hvalues⟩ := mem_asked ht
    have hdescribed := h a ha
    rw [if_pos heq] at hdescribed
    obtain ⟨b, hb, hbeq, hbkey, hrow⟩ := hdescribed
    rw [hvalues, ← hkey, ← hbkey]
    exact ⟨b, hb, hbeq, rfl, hrow.symm⟩
  refine Formula.holds_mono (fun a ha hchosen => ?_) (hchoices _ hc)
  by_cases heq : isEqual a = true
  · obtain ⟨t, -, ht⟩ := List.mem_map.mp (hchosen heq)
    obtain ⟨hkey, hvalue⟩ := Prod.mk.inj ht
    exact (holds_of_isEqual heq).mpr (hkey ▸ hvalue)
  · have hdescribed := h a ha
    rw [if_neg heq] at hdescribed
    exact (holds_of_not_isEqual (Bool.eq_false_iff.mpr heq)).mpr hdescribed

variable [Infinite ν]

/-- A row that has what an alternative asks for, and one more value that it does not exclude. -/
theorem covers_of_describes (hu : Uniform φ.atoms) (h : ∀ row : κ → ν, φ.Holds (Holds row) → Describes φ.atoms row) :
    ∀ A ∈ φ.alternatives, Consistent A → ∀ a ∈ φ.atoms, Covers A a := by
  intro A hA hcons a ha
  obtain ⟨z, hz⟩ := exists_fresh φ.atoms
  have hatoms : ∀ b ∈ A, b ∈ φ.atoms := fun b hb => Formula.mem_atoms_of_mem_alternative hA hb
  obtain ⟨row, hrow, hfresh⟩ := Choices.exists_row (c := (A.filter isEqual).map fun b => (key b, value b)) (by
    intro x hx y hy hkey
    obtain ⟨b, hb, rfl⟩ := List.mem_map.mp hx
    obtain ⟨b', hb', rfl⟩ := List.mem_map.mp hy
    obtain ⟨hb, hbeq⟩ := List.mem_filter.mp hb
    obtain ⟨hb', hbeq'⟩ := List.mem_filter.mp hb'
    exact hcons b hb b' hb' hbeq hbeq' hkey) z
  have hasked : ∀ b ∈ A, isEqual b = true → row (key b) = value b := fun b hb heq =>
    hrow (key b, value b) (List.mem_map.mpr ⟨b, List.mem_filter.mpr ⟨hb, heq⟩, rfl⟩)
  have helsewhere : ∀ k, (∀ b ∈ A, isEqual b = true → key b ≠ k) → row k = z := by
    intro k hk
    refine hfresh k fun hmem => ?_
    obtain ⟨x, hx, hkey⟩ := List.mem_map.mp hmem
    obtain ⟨b, hb, rfl⟩ := List.mem_map.mp hx
    obtain ⟨hb, heq⟩ := List.mem_filter.mp hb
    exact hk b hb heq hkey
  by_cases heq : isEqual a = true
  · have hholds : φ.Holds (Holds row) := by
      refine Formula.holds_iff_alternative.mpr ⟨A, hA, fun b hb => ?_⟩
      by_cases hbeq : isEqual b = true
      · exact (holds_of_isEqual hbeq).mpr (hasked b hb hbeq)
      · have hne := Bool.eq_false_iff.mpr hbeq
        rw [holds_of_not_isEqual hne, helsewhere (key b)]
        · exact (hz b (hatoms b hb)).symm
        · intro b' hb' hbeq' hkey
          exact hbeq ((hu b' (hatoms b' hb') b (hatoms b hb) hkey).symm.trans hbeq')
    have hdescribed := h row hholds a ha
    rw [if_pos heq] at hdescribed
    obtain ⟨b, hb, hbeq, hbkey, hvalue⟩ := hdescribed
    by_contra hnone
    refine hz b hb (hvalue.symm.trans (helsewhere (key b) fun b' hb' hbeq' hkey => hnone ?_))
    exact ⟨b', hb', hbeq'.trans heq.symm, hkey.trans hbkey, fun hne => absurd heq (Bool.eq_false_iff.mp hne)⟩
  · have hne := Bool.eq_false_iff.mpr heq
    by_contra hnone
    have hholds : φ.Holds (Holds (Function.update row (key a) (value a))) := by
      refine Formula.holds_iff_alternative.mpr ⟨A, hA, fun b hb => ?_⟩
      by_cases hbeq : isEqual b = true
      · have hkey : key b ≠ key a := fun hkey =>
          heq ((hu b (hatoms b hb) a ha hkey).symm.trans hbeq)
        rw [holds_of_isEqual hbeq, Function.update_of_ne hkey]
        exact hasked b hb hbeq
      · have hbne := Bool.eq_false_iff.mpr hbeq
        rw [holds_of_not_isEqual hbne]
        by_cases hkey : key b = key a
        · rw [hkey, Function.update_self]
          exact fun hvalue => hnone ⟨b, hb, hbne.trans hne.symm, hkey, fun _ => hvalue.symm⟩
        · rw [Function.update_of_ne hkey, helsewhere (key b)]
          · exact (hz b (hatoms b hb)).symm
          · intro b' hb' hbeq' hkey'
            exact hbeq ((hu b' (hatoms b' hb') b (hatoms b hb) hkey').symm.trans hbeq')
    have hdescribed := h _ hholds a ha
    rw [if_neg heq, Function.update_self] at hdescribed
    exact hdescribed rfl

theorem choices_of_describes (hu : Uniform φ.atoms) (h : ∀ row : κ → ν, Describes φ.atoms row → φ.Holds (Holds row)) :
    ∀ c ∈ Choices.choices (asked φ.atoms), φ.Holds (Chosen c) := by
  intro c hc
  obtain ⟨z, hz⟩ := exists_fresh φ.atoms
  obtain ⟨hkeys, hvalues⟩ := Choices.mem_choices hc
  obtain ⟨row, hrow, hfresh⟩ := Choices.exists_row (c := c) (by
    intro x hx y hy hkey
    rw [List.inj_on_of_nodup_map (hkeys ▸ nodup_asked φ.atoms) hx hy hkey]) z
  -- for each key that a value is asked for under, the row has the one that is chosen
  have hchosen : ∀ a ∈ φ.atoms, isEqual a = true → (key a, row (key a)) ∈ c ∧
      ∃ b ∈ φ.atoms, isEqual b = true ∧ key b = key a ∧ row (key b) = value b := by
    intro a ha heq
    obtain ⟨t, ht, hkey⟩ := exists_asked ha heq
    obtain ⟨v, hv, hmem⟩ := hvalues t ht
    obtain ⟨b, hb, hbeq, hbkey, hvalue⟩ := ((mem_asked ht).2 v).mp hv
    rw [hkey] at hmem hbkey
    have hv' : row (key a) = v := hrow _ hmem
    exact ⟨hv' ▸ hmem, b, hb, hbeq, hbkey, by rw [hbkey, hv', hvalue]⟩
  have hdescribes : Describes φ.atoms row := by
    intro a ha
    split_ifs with heq
    · exact (hchosen a ha heq).2
    · rw [hfresh (key a)]
      · exact (hz a ha).symm
      · rw [hkeys]
        intro hmem
        obtain ⟨t, ht, hkey⟩ := List.mem_map.mp hmem
        obtain ⟨⟨b, hb, hbeq, hbkey⟩, -⟩ := mem_asked ht
        exact heq ((hu a ha b hb (hkey.symm.trans hbkey.symm)).trans hbeq)
  refine Formula.holds_mono (fun a ha hholds heq => ?_) (h row hdescribes)
  rw [← (holds_of_isEqual heq).mp hholds]
  exact (hchosen a ha heq).1

/-- A formula means what the list of its comparisons describes if and only if it is a product. -/
theorem describes_iff (hu : Uniform φ.atoms) :
    (∀ row : κ → ν, φ.Holds (Holds row) ↔ Describes φ.atoms row) ↔ IsProduct φ := by
  constructor
  · exact fun h => ⟨covers_of_describes hu fun row => (h row).mp, choices_of_describes hu fun row => (h row).mpr⟩
  · exact fun h row => ⟨describes_of_holds h.1, holds_of_describes h.2⟩

end Compares
