/-
# The table of the cells

One cell after the other is put into the row of its time, at the last place that
has the key of its label. The table has then one row for each time of the cells,
and in every place the value that was put there last.

Key definitions: `lastValue`, `Filled`.
Key theorems: `filled_insertCell`, `filled_cells`, `labelsToValueIndex_eq_some_iff`.
-/
import Chronograf.Graphs.Transform

namespace Chronograf
namespace Graphs

variable {α : Type}

/-! ### Filling the table -/

/-- The last value that is put into this cell. -/
def lastValue (labels : List Label) (cells : List (Cell α)) (t : ℤ) (p : ℕ) : Option α :=
  cells.foldl (fun value c => if c.time = t ∧ labelsToValueIndex labels c.label.key = some p then c.value else value) none

theorem lastValue_append (labels : List Label) (cells : List (Cell α)) (c : Cell α) (t : ℤ) (p : ℕ) :
    lastValue labels (cells ++ [c]) t p =
      if c.time = t ∧ labelsToValueIndex labels c.label.key = some p then c.value else lastValue labels cells t p := by
  rw [lastValue, List.foldl_append]
  rfl

theorem lastValue_none {labels : List Label} {cells : List (Cell α)} {t : ℤ} {p : ℕ}
    (h : ∀ c ∈ cells, ¬ (c.time = t ∧ labelsToValueIndex labels c.label.key = some p)) : lastValue labels cells t p = none := by
  induction cells using List.reverseRecOn with
  | nil => rfl
  | append_singleton cells c ih =>
    rw [lastValue_append, if_neg (h c (List.mem_append_right _ List.mem_cons_self))]
    exact ih fun c' hc' => h c' (List.mem_append_left _ hc')

/-- What is put into the cell last stays. -/
theorem lastValue_eq {labels : List Label} {before after : List (Cell α)} {c : Cell α} {t : ℤ} {p : ℕ}
    (hc : c.time = t ∧ labelsToValueIndex labels c.label.key = some p)
    (hafter : ∀ c' ∈ after, ¬ (c'.time = t ∧ labelsToValueIndex labels c'.label.key = some p)) :
    lastValue labels (before ++ c :: after) t p = c.value := by
  induction after using List.reverseRecOn with
  | nil => rw [lastValue_append, if_pos hc]
  | append_singleton after c' ih =>
    have hsplit : before ++ c :: (after ++ [c']) = (before ++ c :: after) ++ [c'] := by simp
    rw [hsplit, lastValue_append, if_neg (hafter c' (List.mem_append_right _ List.mem_cons_self))]
    exact ih fun d hd => hafter d (List.mem_append_left _ hd)

theorem lastValue_filter (labels : List Label) (cells : List (Cell α)) (t : ℤ) (p : ℕ) :
    lastValue labels (cells.filter (·.time = t)) t p = lastValue labels cells t p := by
  induction cells using List.reverseRecOn with
  | nil => rfl
  | append_singleton cells c ih =>
    rw [List.filter_append, lastValue_append]
    by_cases ht : c.time = t
    · have hkept : [c].filter (fun c => decide (c.time = t)) = [c] := by simp [ht]
      rw [hkept, lastValue_append, ih]
    · have hdropped : [c].filter (fun c => decide (c.time = t)) = [] := by simp [ht]
      rw [hdropped, List.append_nil, ih, if_neg fun h => ht h.1]

/-- The table has one row for each of the times `T`, filled with the cells. -/
structure Filled (labels : List Label) (cells : List (Cell α)) (T : ℤ → Prop) (table : Table α) : Prop where
  memo : ∀ t i, table.tsMemo t = some i ↔ ∃ row, table.timeSeries[i]? = some row ∧ row.time = t
  times : ∀ t, (∃ row ∈ table.timeSeries, row.time = t) ↔ T t
  width : ∀ row ∈ table.timeSeries, row.values.length = labels.length
  values : ∀ row ∈ table.timeSeries, ∀ p < labels.length, row.values[p]? = some (lastValue labels cells row.time p)

namespace Filled

variable {labels : List Label} {cells : List (Cell α)} {T : ℤ → Prop} {table : Table α}

theorem unique (h : Filled labels cells T table) {i j : ℕ} {row row' : TimeSeries α} (hi : table.timeSeries[i]? = some row)
    (hj : table.timeSeries[j]? = some row') (ht : row.time = row'.time) : i = j :=
  Option.some.inj (((h.memo row'.time i).mpr ⟨row, hi, ht⟩).symm.trans ((h.memo row'.time j).mpr ⟨row', hj, rfl⟩))

theorem existingRow (h : Filled labels cells T table) (time : ℤ) (hT : ∀ c ∈ cells, T c.time) :
    Filled labels cells (fun t => T t ∨ t = time) (existingRow labels.length table time).1 ∧
      (Graphs.existingRow labels.length table time).1.tsMemo time = some (Graphs.existingRow labels.length table time).2 := by
  unfold Graphs.existingRow
  cases hmemo : table.tsMemo time with
  | some i =>
    refine ⟨⟨h.memo, fun t => ?_, h.width, h.values⟩, hmemo⟩
    rw [h.times]
    refine ⟨.inl, fun ht => ht.elim id ?_⟩
    rintro rfl
    obtain ⟨row, hrow, htime⟩ := (h.memo t i).mp hmemo
    exact (h.times t).mp ⟨row, List.mem_of_getElem? hrow, htime⟩
  | none =>
    have hnew : ∀ row ∈ table.timeSeries, row.time ≠ time := by
      intro row hrow heq
      obtain ⟨i, hi⟩ := List.mem_iff_getElem?.mp hrow
      rw [(h.memo time i).mpr ⟨row, hi, heq⟩] at hmemo
      cases hmemo
    have hcells : ∀ c ∈ cells, c.time ≠ time := fun c hc heq => by
      obtain ⟨row, hrow, htime⟩ := (h.times c.time).mpr (hT c hc)
      exact hnew row hrow (htime.trans heq)
    have hrows : ∀ row, row ∈ table.timeSeries ++ [⟨time, List.replicate labels.length none⟩] ↔
        row ∈ table.timeSeries ∨ row = ⟨time, List.replicate labels.length none⟩ := by
      intro row
      rw [List.mem_append, List.mem_singleton]
    refine ⟨⟨fun t i => ?_, fun t => ?_, fun row hrow => ?_, fun row hrow p hp => ?_⟩, Function.update_self _ _ _⟩
    · simp only [Function.update_apply, List.getElem?_append]
      by_cases ht : t = time
      · subst ht
        rw [if_pos rfl]
        constructor
        · intro heq
          obtain rfl := Option.some.inj heq
          refine ⟨⟨t, List.replicate labels.length none⟩, ?_, rfl⟩
          simp
        · rintro ⟨row, hrow, htime⟩
          split_ifs at hrow with hlt
          · exact absurd htime (hnew row (List.mem_of_getElem? hrow))
          · have hi : i - table.timeSeries.length = 0 := by
              by_contra hne
              rw [List.getElem?_eq_none (by simp only [List.length_singleton]; omega)] at hrow
              cases hrow
            exact congrArg some (by omega)
      · rw [if_neg ht, h.memo]
        constructor
        · rintro ⟨row, hrow, htime⟩
          refine ⟨row, ?_, htime⟩
          rw [if_pos (List.getElem?_eq_some_iff.mp hrow).1]
          exact hrow
        · rintro ⟨row, hrow, htime⟩
          split_ifs at hrow with hlt
          · exact ⟨row, hrow, htime⟩
          · obtain rfl := List.mem_singleton.mp (List.mem_of_getElem? hrow)
            exact absurd htime.symm ht
    · rw [← h.times]
      constructor
      · rintro ⟨row, hrow, htime⟩
        rcases (hrows row).mp hrow with hrow | rfl
        · exact .inl ⟨row, hrow, htime⟩
        · exact .inr htime.symm
      · rintro (⟨row, hrow, htime⟩ | rfl)
        · exact ⟨row, (hrows row).mpr (.inl hrow), htime⟩
        · exact ⟨_, (hrows _).mpr (.inr rfl), rfl⟩
    · rcases (hrows row).mp hrow with hrow | rfl
      · exact h.width row hrow
      · exact List.length_replicate
    · rcases (hrows row).mp hrow with hrow | rfl
      · exact h.values row hrow p hp
      · rw [lastValue_none fun c hc heq => hcells c hc heq.1, List.getElem?_replicate, if_pos hp]

/-- One more cell is put into the row of its time. -/
theorem putValue (h : Filled labels cells T table) {c : Cell α} {i : ℕ} (hi : table.tsMemo c.time = some i) :
    Filled labels (cells ++ [c]) T { table with timeSeries := table.timeSeries.modify i (Graphs.putValue labels c) } := by
  obtain ⟨row₀, hrow₀, htime₀⟩ := (h.memo c.time i).mp hi
  have hlength : ∀ values : List (Option α), (Graphs.assign values (labelsToValueIndex labels c.label.key) c.value).length =
      values.length := by
    intro values
    unfold Graphs.assign
    split
    · exact List.length_set
    · rfl
  have hmodify : ∀ j, (table.timeSeries.modify i (Graphs.putValue labels c))[j]? =
      (table.timeSeries[j]?).map fun row => if i = j then Graphs.putValue labels c row else row :=
    fun j => List.getElem?_modify _ _ _ _
  -- every row is one that was there, changed if it is the row of this time
  have hrows : ∀ (j : ℕ) (row : TimeSeries α), (table.timeSeries.modify i (Graphs.putValue labels c))[j]? = some row →
      ∃ old, table.timeSeries[j]? = some old ∧ row.time = old.time ∧ row.values.length = old.values.length ∧
        (old.time ≠ c.time ∧ row = old ∨ old.time = c.time ∧
          row.values = Graphs.assign old.values (labelsToValueIndex labels c.label.key) c.value) := by
    intro j row hrow
    rw [hmodify] at hrow
    obtain ⟨old, hold, heq⟩ := Option.map_eq_some_iff.mp hrow
    refine ⟨old, hold, ?_⟩
    by_cases hij : i = j
    · rw [if_pos hij] at heq
      subst heq hij
      obtain rfl := Option.some.inj (hrow₀.symm.trans hold)
      exact ⟨rfl, hlength _, .inr ⟨htime₀, rfl⟩⟩
    · rw [if_neg hij] at heq
      subst heq
      refine ⟨rfl, rfl, .inl ⟨fun htime => hij ?_, rfl⟩⟩
      exact h.unique hrow₀ hold (htime₀.trans htime.symm)
  refine ⟨fun t j => ?_, fun t => ?_, fun row hrow => ?_, fun row hrow p hp => ?_⟩
  · rw [h.memo]
    simp only [hmodify, Option.map_eq_some_iff]
    constructor
    · rintro ⟨row, hrow, htime⟩
      refine ⟨_, ⟨row, hrow, rfl⟩, ?_⟩
      split_ifs <;> exact htime
    · rintro ⟨_, ⟨row, hrow, rfl⟩, htime⟩
      refine ⟨row, hrow, ?_⟩
      split_ifs at htime <;> exact htime
  · rw [← h.times]
    constructor
    · rintro ⟨row, hrow, htime⟩
      obtain ⟨j, hj⟩ := List.mem_iff_getElem?.mp hrow
      obtain ⟨old, hold, hsame, -⟩ := hrows j row hj
      exact ⟨old, List.mem_of_getElem? hold, hsame.symm.trans htime⟩
    · rintro ⟨row, hrow, htime⟩
      obtain ⟨j, hj⟩ := List.mem_iff_getElem?.mp hrow
      refine ⟨_, List.mem_of_getElem? (i := j) (by rw [hmodify, hj]; rfl), ?_⟩
      split_ifs <;> exact htime
  · obtain ⟨j, hj⟩ := List.mem_iff_getElem?.mp hrow
    obtain ⟨old, hold, -, hwidth, -⟩ := hrows j row hj
    exact hwidth.trans (h.width old (List.mem_of_getElem? hold))
  · obtain ⟨j, hj⟩ := List.mem_iff_getElem?.mp hrow
    obtain ⟨old, hold, hsame, -, hchange⟩ := hrows j row hj
    have hvalue := h.values old (List.mem_of_getElem? hold) p hp
    have hwidth := h.width old (List.mem_of_getElem? hold)
    rw [lastValue_append, hsame]
    rcases hchange with ⟨hne, rfl⟩ | ⟨heq, hvalues⟩
    · rw [if_neg fun hc => hne hc.1.symm]
      exact hvalue
    · rw [hvalues]
      unfold Graphs.assign
      cases hindex : labelsToValueIndex labels c.label.key with
      | none =>
        rw [if_neg fun hc => nomatch hc.2]
        exact hvalue
      | some k =>
        by_cases hkp : k = p
        · rw [if_pos ⟨heq.symm, congrArg some hkp⟩, hkp]
          exact List.getElem?_set_self (hwidth ▸ hp)
        · rw [if_neg fun hc => hkp (Option.some.inj hc.2)]
          exact (List.getElem?_set_ne hkp).trans hvalue

end Filled

variable {labels : List Label} {shiftDate : ℤ → String → String → ℤ}

theorem filled_insertCell {cells : List (Cell α)} {T : ℤ → Prop} {table : Table α} (h : Filled labels cells T table)
    (hT : ∀ c ∈ cells, T c.time) {c : Cell α} (htime : cellTime shiftDate c.label.label c.time = c.time) :
    Filled labels (cells ++ [c]) (fun t => T t ∨ t = c.time) (insertCell shiftDate labels table c) := by
  obtain ⟨hfilled, hmemo⟩ := h.existingRow c.time hT
  unfold insertCell
  rw [htime]
  exact hfilled.putValue hmemo

theorem cellTime_of_own {label : String} (h : isShifted label = false) (time : ℤ) : cellTime shiftDate label time = time :=
  if_neg (Bool.eq_false_iff.mp h)

/-- All cells are put into a table that was empty. -/
theorem filled_cells {cells : List (Cell α)} (hcells : ∀ c ∈ cells, cellTime shiftDate c.label.label c.time = c.time) :
    Filled labels cells (fun t => ∃ c ∈ cells, c.time = t) (cells.foldl (insertCell shiftDate labels) ⟨[], fun _ => none⟩) := by
  induction cells using List.reverseRecOn with
  | nil =>
    refine ⟨fun t i => ?_, fun t => ?_, fun row hrow => ?_, fun row hrow => ?_⟩
    · simp
    · simp
    · exact absurd hrow List.not_mem_nil
    · exact absurd hrow List.not_mem_nil
  | append_singleton cells c ih =>
    have hfilled := ih fun c' hc' => hcells c' (List.mem_append_left _ hc')
    have hnext : Filled labels (cells ++ [c]) _ (insertCell shiftDate labels _ c) :=
      filled_insertCell hfilled (fun c' hc' => ⟨c', hc', rfl⟩) (hcells c (List.mem_append_right _ List.mem_cons_self))
    rw [List.foldl_append]
    refine ⟨hnext.memo, fun t => (hnext.times t).trans ?_, hnext.width, hnext.values⟩
    constructor
    · rintro (⟨c', hc', htime⟩ | rfl)
      · exact ⟨c', List.mem_append_left _ hc', htime⟩
      · exact ⟨c, List.mem_append_right _ List.mem_cons_self, rfl⟩
    · rintro ⟨c', hc', htime⟩
      rcases List.mem_append.mp hc' with hc' | hc'
      · exact .inl ⟨c', hc', htime⟩
      · exact .inr (List.mem_singleton.mp hc' ▸ htime.symm)

/-! ### Places -/

theorem labelsToValueIndex_append (labels : List Label) (l : Label) : labelsToValueIndex (labels ++ [l]) =
    Function.update (labelsToValueIndex labels) l.key (some labels.length) := by
  unfold labelsToValueIndex
  rw [List.zipIdx_append, List.foldl_append]
  simp

/-- A key is found at its last place. -/
theorem labelsToValueIndex_eq_some_iff {labels : List Label} {key : String} {p : ℕ} :
    labelsToValueIndex labels key = some p ↔ (∃ l, labels[p]? = some l ∧ l.key = key) ∧
      ∀ q l, labels[q]? = some l → l.key = key → q ≤ p := by
  induction labels using List.reverseRecOn generalizing p with
  | nil => simp [labelsToValueIndex]
  | append_singleton labels l ih =>
    have hlast : (labels ++ [l])[labels.length]? = some l := by simp
    rw [labelsToValueIndex_append, Function.update_apply]
    split_ifs with hkey
    · constructor
      · intro heq
        obtain rfl := Option.some.inj heq
        refine ⟨⟨l, hlast, hkey.symm⟩, fun q l' hq _ => ?_⟩
        have hlt := (List.getElem?_eq_some_iff.mp hq).1
        rw [List.length_append, List.length_singleton] at hlt
        omega
      · rintro ⟨⟨l', hp, -⟩, hle⟩
        have hlt := (List.getElem?_eq_some_iff.mp hp).1
        have hge := hle labels.length l hlast hkey.symm
        rw [List.length_append, List.length_singleton] at hlt
        exact congrArg some (by omega)
    · have hold : ∀ (q : ℕ) (l' : Label), l'.key = key → ((labels ++ [l])[q]? = some l' ↔ labels[q]? = some l') := by
        intro q l' hl'
        rw [List.getElem?_append]
        split_ifs with hlt
        · rfl
        · constructor
          · intro hq
            obtain rfl := List.mem_singleton.mp (List.mem_of_getElem? hq)
            exact absurd hl'.symm hkey
          · intro hq
            exact absurd (List.getElem?_eq_some_iff.mp hq).1 hlt
      rw [ih]
      refine and_congr ?_ ?_
      · exact exists_congr fun l' => ⟨fun h => ⟨(hold p l' h.2).mpr h.1, h.2⟩, fun h => ⟨(hold p l' h.2).mp h.1, h.2⟩⟩
      · exact forall₂_congr fun q l' => ⟨fun h hq hl' => h ((hold q l' hl').mp hq) hl',
          fun h hq hl' => h ((hold q l' hl').mpr hq) hl'⟩

/-- The key of a label is found. -/
theorem exists_index {labels : List Label} {l : Label} (hl : l ∈ labels) : ∃ p, labelsToValueIndex labels l.key = some p := by
  induction labels using List.reverseRecOn with
  | nil => exact absurd hl List.not_mem_nil
  | append_singleton labels l' ih =>
    rw [labelsToValueIndex_append, Function.update_apply]
    split_ifs with hkey
    · exact ⟨_, rfl⟩
    · rcases List.mem_append.mp hl with hl | hl
      · exact ih hl
      · exact absurd (congrArg Label.key (List.mem_singleton.mp hl)) hkey

end Graphs
end Chronograf
