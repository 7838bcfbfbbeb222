/-
# The merge of time series

Of series that are not grouped for a table, every row of the result should have
the values of its time, each in a column of its own. Whether nothing is lost is
decided by the columns that share a key: the statements of one response are not
numbered, so that their series may have the same label and the same numbers, and
a label may end in digits, as does the key.

Key definitions: `Column`, `valueColumns`, `Merged`, `Separate`.
Key theorems: `cells_at`, `merged_iff`.
-/
import Chronograf.Graphs.Table
import Chronograf.Lib.Checks
import Chronograf.Lib.Collate

namespace Chronograf
namespace Graphs

variable {α : Type}

/-! ### The columns of the input -/

/-- A column of values beside the times of a series. -/
structure Column (α : Type) where
  label : Label
  rows : List (Row α)
  index : ℕ

namespace Column

/-- What the row of this time has in the column. -/
def entry (c : Column α) (t : ℤ) : Option (Option α) :=
  (c.rows.find? (·.time = t)).bind (·.values[c.index]?)

/-- The value at this time, if there is one. -/
def value (c : Column α) (t : ℤ) : Option α := (c.entry t).join

def HasValue (c : Column α) : Prop := ∃ t, c.value t ≠ none

end Column

/-- The series of the statement `results` that are not grouped, with their numbers. -/
def numbered (response : ℕ) (results : List (TimeSeriesSeries α)) : List (Series α) :=
  results.zipIdx.map fun (s, index) => { s with responseIndex := response, seriesIndex := index, isGroupBy := false }

/-- All series of all statements of the responses. -/
def inputs (raw : List (TimeSeriesServerResponse α)) : List (Series α) :=
  raw.zipIdx.flatMap fun (response, index) => (response.filterMap TimeSeriesResult.successful).flatMap (numbered index)

def columnsOf (s : Series α) : List (Column α) :=
  (unsortedLabels s).zipIdx.map fun (label, index) => ⟨label, s.values, index⟩

/-- All columns of all series. -/
def valueColumns (raw : List (TimeSeriesServerResponse α)) : List (Column α) := (inputs raw).flatMap columnsOf

/-- The time of a row of the input. -/
def TimeOf (raw : List (TimeSeriesServerResponse α)) (t : ℤ) : Prop := ∃ s ∈ inputs raw, ∃ row ∈ s.values, row.time = t

/-- Times that ascend, and a value for each column. -/
structure WellFormed (s : Series α) : Prop where
  ascending : s.values.Pairwise (·.time < ·.time)
  complete : ∀ row ∈ s.values, row.values.length + 1 = s.columns.length

/-! ### What is expected of the merge -/

/-- The table has one row for each time, in ascending order, and each column has
one place in it, where its values stand. -/
structure Merged (raw : List (TimeSeriesServerResponse α)) (labels : List Label) (rows : List (TimeSeries α)) : Prop where
  ascending : rows.Pairwise (·.time < ·.time)
  times : ∀ t, (∃ row ∈ rows, row.time = t) ↔ TimeOf raw t
  width : ∀ row ∈ rows, row.values.length = labels.length
  assigned : ∃ f : Fin (valueColumns raw).length → Fin labels.length, Function.Injective f ∧
    (∀ i, labels[f i].label = (valueColumns raw)[i].label.label) ∧
    ∀ row ∈ rows, (∀ i, row.values[f i]? = some ((valueColumns raw)[i].value row.time)) ∧
      ∀ p : Fin labels.length, (∀ i, f i ≠ p) → row.values[p]? = some none

/-- Every time of the input has an entry in some column. -/
def Timed (raw : List (TimeSeriesServerResponse α)) : Prop := ∀ t, TimeOf raw t → ∃ c ∈ valueColumns raw, c.entry t ≠ none

/-- Of two columns with one key, of which one has values, the other has none, its
label is not greater, and if it comes later it has no entry beside one of the values. -/
def Separate (columns : List (Column α)) : Prop :=
  ∀ i j : Fin columns.length, i ≠ j → columns[i].label.key = columns[j].label.key → columns[i].HasValue →
    ¬ columns[j].HasValue ∧ columns[j].label.label ≤ columns[i].label.label ∧
      ∀ t, i < j → columns[i].value t ≠ none → columns[j].entry t = none

/-- Columns that all have different keys are separate. -/
theorem separate_of_injective {columns : List (Column α)}
    (h : Function.Injective fun i : Fin columns.length => columns[i].label.key) : Separate columns :=
  fun _ _ hij hkey => absurd (h hkey) hij

/-! ### The cells of a time -/

/-- The cell of a row in a column. -/
def Column.cell (t : ℤ) (c : Column α) : Option (Cell α) := (c.entry t).map fun v => ⟨c.label, v, t⟩

theorem flatMap_of_time {β : Type} (f : Row α → List β) (t : ℤ) : ∀ {rows : List (Row α)}, rows.Pairwise (·.time < ·.time) →
    rows.flatMap (fun row => if row.time = t then f row else []) = ((rows.find? (·.time = t)).map f).getD []
  | [], _ => rfl
  | row :: rows, h => by
    obtain ⟨hrow, hrows⟩ := List.pairwise_cons.mp h
    rw [List.flatMap_cons, List.find?_cons]
    by_cases ht : row.time = t
    · have hnone : rows.flatMap (fun row => if row.time = t then f row else []) = [] := by
        rw [List.flatMap_eq_nil_iff]
        intro row' hrow'
        exact if_neg ((ht ▸ hrow row' hrow').ne')
      rw [if_pos ht, hnone, List.append_nil, decide_eq_true ht]
      rfl
    · rw [if_neg ht, decide_eq_false ht]
      exact flatMap_of_time f t hrows

theorem filterMap_zipIdx {β γ δ : Type} (f : β → γ → δ) : ∀ (as : List β) (before vs : List γ),
    (as.zipIdx before.length).filterMap (fun (a, i) => ((before ++ vs)[i]?).map (f a)) = (as.zip vs).map fun (a, v) => f a v
  | [], _, _ => rfl
  | a :: as, before, [] => by
    have hnone : ∀ p ∈ (a :: as).zipIdx before.length, (((before ++ [])[p.2]?).map (f p.1) : Option δ) = none := by
      rintro ⟨b, i⟩ hp
      have hle := List.le_snd_of_mem_zipIdx hp
      rw [List.append_nil, List.getElem?_eq_none hle]
      rfl
    rw [List.filterMap_eq_nil_iff.mpr hnone]
    rfl
  | a :: as, before, v :: vs => by
    have hsplit : before ++ v :: vs = (before ++ [v]) ++ vs := by simp
    have hat : (before ++ v :: vs)[before.length]? = some v := by simp
    rw [List.zipIdx_cons, List.filterMap_cons, List.zip_cons_cons, List.map_cons, ← filterMap_zipIdx f as (before ++ [v]) vs]
    simp only [hat, ← hsplit, Option.map_some, List.length_append, List.length_singleton]

/-- The cells of a row. -/
def cellsOf (s : Series α) (row : Row α) : List (Cell α) :=
  ((unsortedLabels s).zip row.values).map fun (label, value) => ⟨label, value, row.time⟩

theorem filter_cellsOf (s : Series α) (row : Row α) (t : ℤ) :
    (cellsOf s row).filter (·.time = t) = if row.time = t then cellsOf s row else [] := by
  have htime : ∀ c ∈ cellsOf s row, c.time = row.time := by
    intro c hc
    obtain ⟨_, -, rfl⟩ := List.mem_map.mp hc
    rfl
  split_ifs with ht
  · exact List.filter_eq_self.mpr fun c hc => decide_eq_true ((htime c hc).trans ht)
  · refine List.filter_eq_nil_iff.mpr fun c hc heq => ht ?_
    exact (htime c hc).symm.trans (of_decide_eq_true heq)

theorem cells_at_series {s : Series α} (h : s.values.Pairwise (·.time < ·.time)) (t : ℤ) :
    (s.values.flatMap (cellsOf s)).filter (·.time = t) = (columnsOf s).filterMap (Column.cell t) := by
  have hcolumns : (columnsOf s).filterMap (Column.cell t) =
      ((s.values.find? (·.time = t)).map (cellsOf s)).getD [] := by
    unfold columnsOf
    rw [List.filterMap_map]
    cases hfind : s.values.find? (·.time = t) with
    | none =>
      refine List.filterMap_eq_nil_iff.mpr ?_
      rintro ⟨l, i⟩ -
      simp [Column.cell, Column.entry, hfind]
    | some row =>
      have htime : row.time = t := by simpa using List.find?_some hfind
      have hzip := filterMap_zipIdx (fun l v => (⟨l, v, t⟩ : Cell α)) (unsortedLabels s) [] row.values
      simp only [Option.map_some, Option.getD_some, cellsOf, htime]
      rw [← hzip]
      refine List.filterMap_congr ?_
      rintro ⟨l, i⟩ -
      simp [Column.cell, Column.entry, hfind]
  rw [hcolumns, ← flatMap_of_time (cellsOf s) t h, List.filter_flatMap]
  exact List.flatMap_congr fun row _ => filter_cellsOf s row t

/-- The cells of a time are the entries of the columns in their order. -/
theorem cells_at {serieses : List (Series α)} (h : ∀ s ∈ serieses, s.values.Pairwise (·.time < ·.time)) (t : ℤ) :
    (serieses.flatMap fun s => s.values.flatMap (cellsOf s)).filter (·.time = t) =
      (serieses.flatMap columnsOf).filterMap (Column.cell t) := by
  rw [List.filter_flatMap, List.filterMap_flatMap]
  exact List.flatMap_congr fun s hs => cells_at_series (h s hs) t

/-! ### What the transformation does -/

/-- All cells, series by series and row by row. -/
def allCells (raw : List (TimeSeriesServerResponse α)) : List (Cell α) :=
  (inputs raw).flatMap fun s => s.values.flatMap (cellsOf s)

theorem inputs_eq (text : String → α) (raw : List (TimeSeriesServerResponse α)) :
    constructSerieses (constructResults text raw false) = inputs raw := by
  unfold constructSerieses constructResults inputs
  rw [List.flatMap_assoc]
  refine List.flatMap_congr fun p _ => ?_
  simp only [Bool.false_eq_true, false_and, if_false, List.flatMap_map]
  rfl

theorem isGroupBy_of_mem_inputs {raw : List (TimeSeriesServerResponse α)} {s : Series α} (h : s ∈ inputs raw) :
    s.isGroupBy = false := by
  obtain ⟨p, -, hs⟩ := List.mem_flatMap.mp h
  obtain ⟨results, -, hs⟩ := List.mem_flatMap.mp hs
  obtain ⟨q, -, rfl⟩ := List.mem_map.mp hs
  rfl

theorem labels_valueColumns (raw : List (TimeSeriesServerResponse α)) :
    (valueColumns raw).map (·.label) = (inputs raw).flatMap unsortedLabels := by
  unfold valueColumns
  rw [List.map_flatMap]
  refine List.flatMap_congr fun s _ => ?_
  unfold columnsOf
  rw [List.map_map]
  exact List.zipIdx_map_fst _ _

variable {raw : List (TimeSeriesServerResponse α)}

theorem constructCells_inputs (h : ∀ s ∈ inputs raw, WellFormed s) : constructCells (inputs raw) = some (allCells raw) := by
  have hkept : (inputs raw).filter (!·.isGroupBy) = inputs raw :=
    List.filter_eq_self.mpr fun s hs => by rw [isGroupBy_of_mem_inputs hs]; rfl
  have hrow : ∀ s ∈ inputs raw, ∀ row ∈ s.values, labelled s row = some (cellsOf s row) := by
    intro s hs row hrow
    have hlength : (unsortedLabels s).length = s.columns.length - 1 := by
      unfold unsortedLabels
      rw [isGroupBy_of_mem_inputs hs, if_neg Bool.false_ne_true, List.length_map, List.length_drop]
    have hcomplete := (h s hs).complete row hrow
    unfold labelled
    rw [if_pos (by omega)]
    rfl
  have hseries : ∀ s ∈ inputs raw, s.values.mapM (labelled s) = some (s.values.map (cellsOf s)) :=
    fun s hs => Option.mapM_eq_map (hrow s hs)
  unfold constructCells
  rw [hkept, Option.mapM_eq_map hseries]
  show some (((inputs raw).map fun s => s.values.map (cellsOf s)).flatten.flatten) = _
  unfold allCells
  simp only [List.flatMap_def, List.flatten_flatten, List.map_map]
  rfl

theorem transform_eq (text : String → α) (shiftDate : ℤ → String → String → ℤ) (h : ∀ s ∈ inputs raw, WellFormed s) :
    groupByTimeSeriesTransform text shiftDate raw false =
      some (sortedLabels (inputs raw), ((allCells raw).foldl (insertCell shiftDate (sortedLabels (inputs raw)))
        ⟨[], fun _ => none⟩).timeSeries.insertionSort (·.time ≤ ·.time)) := by
  have hgrouped : (inputs raw).filter (·.isGroupBy) = [] :=
    List.filter_eq_nil_iff.mpr fun s hs => by rw [isGroupBy_of_mem_inputs hs]; exact Bool.false_ne_true
  have hrows : insertGroupByValues text (inputs raw) (sortedLabels (inputs raw)) = some [] := by
    unfold insertGroupByValues
    rw [hgrouped]
    rfl
  unfold groupByTimeSeriesTransform constructTimeSeries
  simp only [inputs_eq, constructCells_inputs h, hrows]
  rfl

/-! ### Keys and places -/

theorem length_sortedLabels (raw : List (TimeSeriesServerResponse α)) :
    (sortedLabels (inputs raw)).length = (valueColumns raw).length := by
  unfold sortedLabels
  rw [List.length_insertionSort, ← labels_valueColumns, List.length_map]

/-- Where the columns stand when they are sorted. -/
theorem exists_sorted (raw : List (TimeSeriesServerResponse α)) :
    ∃ σ : Fin (valueColumns raw).length ≃ Fin (sortedLabels (inputs raw)).length,
      ∀ i, (sortedLabels (inputs raw))[σ i] = (valueColumns raw)[i].label := by
  have hperm : ((valueColumns raw).map (·.label)).Perm (sortedLabels (inputs raw)) := by
    rw [labels_valueColumns]
    exact (List.perm_insertionSort _ _).symm
  obtain ⟨e, he⟩ := exists_equiv_of_perm hperm
  refine ⟨(finCongr (List.length_map _).symm).trans e, fun i => ?_⟩
  refine (he (finCongr (List.length_map _).symm i)).trans ?_
  rw [Fin.getElem_fin, List.getElem_map]
  rfl

theorem monotone_label (raw : List (TimeSeriesServerResponse α)) :
    Monotone fun p : Fin (sortedLabels (inputs raw)).length => (sortedLabels (inputs raw))[p].label := by
  have : Std.Total fun a b : Label => a.label ≤ b.label := ⟨fun a b => le_total a.label b.label⟩
  have : IsTrans Label fun a b => a.label ≤ b.label := ⟨fun a b c => le_trans⟩
  have hsorted : (sortedLabels (inputs raw)).Pairwise fun a b => a.label ≤ b.label := List.pairwise_insertionSort _ _
  intro p q hpq
  rcases eq_or_lt_of_le hpq with rfl | hlt
  · exact le_refl _
  · exact List.pairwise_iff_getElem.mp hsorted p q p.2 q.2 hlt

theorem exists_place (i : Fin (valueColumns raw).length) : ∃ p : Fin (sortedLabels (inputs raw)).length,
    labelsToValueIndex (sortedLabels (inputs raw)) (valueColumns raw)[i].label.key = some (p : ℕ) := by
  have hmem : (valueColumns raw)[i].label ∈ sortedLabels (inputs raw) := by
    unfold sortedLabels
    rw [List.mem_insertionSort, ← labels_valueColumns]
    exact List.mem_map_of_mem (List.getElem_mem i.2)
  obtain ⟨p, hp⟩ := exists_index hmem
  obtain ⟨⟨l, hl, -⟩, -⟩ := labelsToValueIndex_eq_some_iff.mp hp
  exact ⟨⟨p, (List.getElem?_eq_some_iff.mp hl).1⟩, hp⟩

/-! ### The merge -/

/-- The entry of a column, beside those of the columns before and after it. -/
theorem cells_at_split (h : ∀ s ∈ inputs raw, WellFormed s) (i : Fin (valueColumns raw).length) (t : ℤ) :
    (allCells raw).filter (·.time = t) = ((valueColumns raw).take i).filterMap (Column.cell t) ++
      ((valueColumns raw)[i].cell t).toList ++ ((valueColumns raw).drop (i + 1)).filterMap (Column.cell t) := by
  have hcells : (allCells raw).filter (·.time = t) = (valueColumns raw).filterMap (Column.cell t) :=
    cells_at (fun s hs => (h s hs).ascending) t
  have hsplit : valueColumns raw = (valueColumns raw).take i ++ [(valueColumns raw)[i]] ++ (valueColumns raw).drop (i + 1) := by
    simp
  rw [hcells]
  conv_lhs => rw [hsplit]
  rw [List.filterMap_append, List.filterMap_append]
  congr 2

theorem exists_column {c : Cell α} {columns : List (Column α)} {t : ℤ} (h : c ∈ columns.filterMap (Column.cell t)) :
    ∃ column ∈ columns, column.entry t = some c.value ∧ c = ⟨column.label, c.value, t⟩ := by
  obtain ⟨column, hmem, hcell⟩ := List.mem_filterMap.mp h
  obtain ⟨v, hv, rfl⟩ := Option.map_eq_some_iff.mp hcell
  exact ⟨column, hmem, hv, rfl⟩

/-- The columns of the input and the table that their cells are put into. -/
noncomputable def collated (h : ∀ s ∈ inputs raw, WellFormed s) :
    Collated (Fin (valueColumns raw).length) (Fin (sortedLabels (inputs raw)).length) String String ℤ α where
  label i := (valueColumns raw)[i].label.label
  key i := (valueColumns raw)[i].label.key
  entry i t := (valueColumns raw)[i].entry t
  sorted := (exists_sorted raw).choose
  placeLabel p := (sortedLabels (inputs raw))[p].label
  placeKey p := (sortedLabels (inputs raw))[p].key
  shown t p := lastValue (sortedLabels (inputs raw)) (allCells raw) t p
  place i := (exists_place i).choose
  label_sorted i := congrArg Label.label ((exists_sorted raw).choose_spec i)
  key_sorted i := congrArg Label.key ((exists_sorted raw).choose_spec i)
  ascending := monotone_label raw
  place_key i := by
    obtain ⟨⟨l, hl, hkey⟩, -⟩ := labelsToValueIndex_eq_some_iff.mp (exists_place i).choose_spec
    exact (congrArg Label.key (List.getElem?_eq_some_iff.mp hl).2).trans hkey
  place_last i p hp := by
    obtain ⟨-, hlast⟩ := labelsToValueIndex_eq_some_iff.mp (exists_place i).choose_spec
    exact hlast p _ (List.getElem?_eq_getElem p.2) hp
  shown_last i t v hv hlater := by
    have hplace := (exists_place i).choose_spec
    have hcell : (valueColumns raw)[i].cell t = some ⟨(valueColumns raw)[i].label, v, t⟩ :=
      Option.map_eq_some_iff.mpr ⟨v, hv, rfl⟩
    rw [← lastValue_filter, cells_at_split h i t, hcell, List.append_assoc]
    refine lastValue_eq ⟨rfl, hplace⟩ fun c hc hindex => ?_
    obtain ⟨column, hmem, hentry, heq⟩ := exists_column hc
    obtain ⟨k, hlt, rfl⟩ : ∃ k : Fin (valueColumns raw).length, i < k ∧ (valueColumns raw)[k] = column := by
      obtain ⟨j, hj, heq⟩ := List.mem_drop_iff_getElem.mp hmem
      exact ⟨⟨i + 1 + j, by omega⟩, Fin.lt_def.mpr (by simp only []; omega), heq⟩
    obtain ⟨⟨l, hl, hkey⟩, -⟩ := labelsToValueIndex_eq_some_iff.mp hplace
    obtain ⟨⟨l', hl', hkey'⟩, -⟩ := labelsToValueIndex_eq_some_iff.mp hindex.2
    obtain rfl := Option.some.inj (hl.symm.trans hl')
    rw [heq] at hkey'
    exact absurd (hentry.symm.trans (hlater k hlt (hkey'.symm.trans hkey))) (Option.some_ne_none _)
  shown_none t p hp := by
    have hcells : (allCells raw).filter (·.time = t) = (valueColumns raw).filterMap (Column.cell t) :=
      cells_at (fun s hs => (h s hs).ascending) t
    rw [← lastValue_filter, hcells]
    refine lastValue_none fun c hc hindex => ?_
    obtain ⟨column, hmem, hentry, heq⟩ := exists_column hc
    obtain ⟨i, hi, rfl⟩ := List.mem_iff_getElem.mp hmem
    rw [heq] at hindex
    have hplace : (exists_place ⟨i, hi⟩).choose = p :=
      Fin.ext (Option.some.inj ((exists_place ⟨i, hi⟩).choose_spec.symm.trans hindex.2))
    exact absurd (hentry.symm.trans (hp ⟨i, hi⟩ hplace)) (Option.some_ne_none _)

/-- The times of the rows are those of the cells, each once and in order. -/
theorem rows_ascending {labels : List Label} {cells : List (Cell α)} {T : ℤ → Prop} {table : Table α}
    (h : Filled labels cells T table) : (table.timeSeries.insertionSort (·.time ≤ ·.time)).Pairwise (·.time < ·.time) := by
  have : Std.Total fun a b : TimeSeries α => a.time ≤ b.time := ⟨fun a b => le_total a.time b.time⟩
  have : IsTrans (TimeSeries α) fun a b => a.time ≤ b.time := ⟨fun a b c => le_trans⟩
  have hsorted : (table.timeSeries.insertionSort (·.time ≤ ·.time)).Pairwise fun a b => a.time ≤ b.time :=
    List.pairwise_insertionSort _ _
  have hdistinct : table.timeSeries.Pairwise fun a b => a.time ≠ b.time := by
    refine List.pairwise_iff_getElem.mpr fun i j hi hj hlt heq => ?_
    exact absurd (h.unique (List.getElem?_eq_getElem hi) (List.getElem?_eq_getElem hj) heq) hlt.ne
  have hperm := List.perm_insertionSort (fun a b : TimeSeries α => a.time ≤ b.time) table.timeSeries
  have hne := (hperm.pairwise_iff (R := fun a b : TimeSeries α => a.time ≠ b.time) fun h => Ne.symm h).mpr hdistinct
  exact (hsorted.and hne).imp fun hle => lt_of_le_of_ne hle.1 hle.2

theorem time_of_cells (h : ∀ s ∈ inputs raw, WellFormed s) (t : ℤ) :
    (∃ c ∈ allCells raw, c.time = t) ↔ ∃ c ∈ valueColumns raw, c.entry t ≠ none := by
  have hcells : (allCells raw).filter (·.time = t) = (valueColumns raw).filterMap (Column.cell t) :=
    cells_at (fun s hs => (h s hs).ascending) t
  have hmem : ∀ c, c ∈ (allCells raw).filter (·.time = t) ↔ c ∈ allCells raw ∧ c.time = t := by
    intro c
    rw [List.mem_filter, decide_eq_true_iff]
  constructor
  · rintro ⟨c, hc, ht⟩
    obtain ⟨column, hcolumn, hentry, -⟩ := exists_column (hcells ▸ (hmem c).mpr ⟨hc, ht⟩)
    exact ⟨column, hcolumn, hentry ▸ Option.some_ne_none _⟩
  · rintro ⟨column, hcolumn, hentry⟩
    obtain ⟨v, hv⟩ := Option.ne_none_iff_exists'.mp hentry
    have hcell : (⟨column.label, v, t⟩ : Cell α) ∈ (allCells raw).filter (·.time = t) := by
      rw [hcells]
      exact List.mem_filterMap.mpr ⟨column, hcolumn, Option.map_eq_some_iff.mpr ⟨v, hv, rfl⟩⟩
    exact ⟨_, (hmem _).mp hcell⟩

theorem timeOf_cell {c : Cell α} (hc : c ∈ allCells raw) : TimeOf raw c.time := by
  obtain ⟨s, hs, hc⟩ := List.mem_flatMap.mp hc
  obtain ⟨row, hrow, hc⟩ := List.mem_flatMap.mp hc
  obtain ⟨_, -, rfl⟩ := List.mem_map.mp hc
  exact ⟨s, hs, row, hrow, rfl⟩

/-- The columns have their places in the rows if they have them in the table at any time. -/
theorem assigned_iff (h : ∀ s ∈ inputs raw, WellFormed s) {T : ℤ → Prop} {table : Table α} {rows : List (TimeSeries α)}
    (hfilled : Filled (sortedLabels (inputs raw)) (allCells raw) T table) (hT : ∀ c ∈ allCells raw, T c.time)
    (hrows : ∀ row, row ∈ rows ↔ row ∈ table.timeSeries) :
    (∃ f : Fin (valueColumns raw).length → Fin (sortedLabels (inputs raw)).length, Function.Injective f ∧
      (∀ i, (sortedLabels (inputs raw))[f i].label = (valueColumns raw)[i].label.label) ∧
      ∀ row ∈ rows, (∀ i, row.values[f i]? = some ((valueColumns raw)[i].value row.time)) ∧
        ∀ p : Fin (sortedLabels (inputs raw)).length, (∀ i, f i ≠ p) → row.values[p]? = some none) ↔
      ∃ f, (collated h).Assignment f := by
  have hvalues : ∀ row ∈ rows, ∀ p : Fin (sortedLabels (inputs raw)).length,
      row.values[p]? = some ((collated h).shown row.time p) :=
    fun row hrow p => hfilled.values row ((hrows row).mp hrow) p p.2
  constructor
  · rintro ⟨f, hinj, hlabel, hplaces⟩
    refine ⟨f, hinj, hlabel, fun i t => ?_⟩
    by_cases ht : ∃ row ∈ rows, row.time = t
    · obtain ⟨row, hrow, rfl⟩ := ht
      exact Option.some.inj ((hvalues row hrow (f i)).symm.trans ((hplaces row hrow).1 i))
    · -- at a time without a row there are no cells
      have hnone : ¬ ∃ c ∈ allCells raw, c.time = t := by
        rintro ⟨c, hc, rfl⟩
        obtain ⟨row, hrow, htime⟩ := (hfilled.times c.time).mpr (hT c hc)
        exact ht ⟨row, (hrows row).mpr hrow, htime⟩
      have hentry : (valueColumns raw)[i].entry t = none := by
        by_contra hne
        exact hnone ((time_of_cells h t).mpr ⟨_, List.getElem_mem i.2, hne⟩)
      have hshown : (collated h).shown t (f i) = none := lastValue_none fun c hc heq => hnone ⟨c, hc, heq.1⟩
      rw [hshown]
      exact (congrArg Option.join hentry).symm
  · rintro ⟨f, hinj, hlabel, hshown⟩
    refine ⟨f, hinj, hlabel, fun row hrow => ⟨fun i => ?_, fun p hp => ?_⟩⟩
    · exact (hvalues row hrow (f i)).trans (congrArg some (hshown i row.time))
    · -- there are as many places as columns
      have hcard : Fintype.card (Fin (valueColumns raw).length) = Fintype.card (Fin (sortedLabels (inputs raw)).length) := by
        rw [Fintype.card_fin, Fintype.card_fin, length_sortedLabels]
      obtain ⟨i, hi⟩ := ((Fintype.bijective_iff_injective_and_card f).mpr ⟨hinj, hcard⟩).2 p
      exact absurd hi (hp i)

/-- Nothing is lost if and only if the columns with one key are separate and
every time of the input has an entry. -/
theorem merged_iff (text : String → α) (shiftDate : ℤ → String → String → ℤ) (raw : List (TimeSeriesServerResponse α))
    (h : ∀ s ∈ inputs raw, WellFormed s) (hshifted : ∀ s ∈ inputs raw, ∀ l ∈ unsortedLabels s, isShifted l.label = false) :
    (∃ labels rows, groupByTimeSeriesTransform text shiftDate raw false = some (labels, rows) ∧ Merged raw labels rows) ↔
      Separate (valueColumns raw) ∧ Timed raw := by
  have hcells : ∀ c ∈ allCells raw, isShifted c.label.label = false := by
    intro c hc
    obtain ⟨s, hs, hc⟩ := List.mem_flatMap.mp hc
    obtain ⟨row, -, hc⟩ := List.mem_flatMap.mp hc
    obtain ⟨⟨l, v⟩, hl, rfl⟩ := List.mem_map.mp hc
    exact hshifted s hs l (List.of_mem_zip hl).1
  have hfilled : Filled (sortedLabels (inputs raw)) (allCells raw) _
      ((allCells raw).foldl (insertCell shiftDate (sortedLabels (inputs raw))) ⟨[], fun _ => none⟩) :=
    filled_cells fun c hc => cellTime_of_own (hcells c hc) c.time
  generalize htable : (allCells raw).foldl (insertCell shiftDate (sortedLabels (inputs raw))) ⟨[], fun _ => none⟩ = table
    at hfilled
  have htransform := transform_eq text shiftDate h
  rw [htable] at htransform
  have hrows : ∀ row, row ∈ table.timeSeries.insertionSort (·.time ≤ ·.time) ↔ row ∈ table.timeSeries :=
    fun row => List.mem_insertionSort _
  have hassigned := assigned_iff h hfilled (fun c hc => ⟨c, hc, rfl⟩) hrows
  have htimes : ∀ t, (∃ row ∈ table.timeSeries.insertionSort (·.time ≤ ·.time), row.time = t) ↔
      ∃ c ∈ valueColumns raw, c.entry t ≠ none := by
    intro t
    simp only [hrows, hfilled.times, time_of_cells h]
  constructor
  · rintro ⟨labels, rows, heq, hmerged⟩
    obtain ⟨rfl, rfl⟩ := Prod.mk.inj (Option.some.inj (htransform.symm.trans heq))
    refine ⟨Collated.assignment_iff.mp (hassigned.mp hmerged.assigned), fun t ht => ?_⟩
    exact (htimes t).mp ((hmerged.times t).mpr ht)
  · rintro ⟨hseparate, htimed⟩
    refine ⟨_, _, htransform, rows_ascending hfilled, fun t => ?_, fun row hrow => ?_, ?_⟩
    · rw [htimes]
      refine ⟨fun hentry => ?_, htimed t⟩
      obtain ⟨c, hc, rfl⟩ := (time_of_cells h t).mpr hentry
      exact timeOf_cell hc
    · exact hfilled.width row ((hrows row).mp hrow)
    · exact hassigned.mpr (Collated.assignment_iff.mpr hseparate)

/-- The usage on two hosts, of one statement. -/
def usageOfHosts : List (TimeSeriesServerResponse ℕ) :=
  [[{ series := some [{ name := "cpu", columns := ["time", "usage"], values := [⟨1, [some 5]⟩, ⟨2, [some 6]⟩], tags := [("host", "a")] },
        { name := "cpu", columns := ["time", "usage"], values := [⟨2, [some 7]⟩], tags := [("host", "b")] }]
      error := none }]]

theorem merged_usageOfHosts : ∃ labels rows, groupByTimeSeriesTransform (fun _ => 0) (fun t _ _ => t) usageOfHosts false =
    some (labels, rows) ∧ Merged usageOfHosts labels rows := by
  refine (merged_iff (fun _ => 0) (fun t _ _ => t) usageOfHosts ?_ (by decide +kernel)).mpr ⟨?_, ?_⟩
  · have hcomplete : ∀ s ∈ inputs usageOfHosts, s.values.Pairwise (·.time < ·.time) ∧
        ∀ row ∈ s.values, row.values.length + 1 = s.columns.length := by decide +kernel
    exact fun s hs => ⟨(hcomplete s hs).1, (hcomplete s hs).2⟩
  · exact separate_of_injective (by decide +kernel)
  · have htimes : ∀ s ∈ inputs usageOfHosts, ∀ row ∈ s.values, ∃ c ∈ valueColumns usageOfHosts, c.entry row.time ≠ none := by
      decide +kernel
    rintro t ⟨s, hs, row, hrow, rfl⟩
    exact htimes s hs row hrow

/-- The usage on two hosts, each asked for by a statement of its own. -/
def usageByStatements : List (TimeSeriesServerResponse ℕ) :=
  [[{ series := some [{ name := "cpu", columns := ["time", "usage"], values := [⟨1, [some 5]⟩], tags := [] }], error := none },
    { series := some [{ name := "cpu", columns := ["time", "usage"], values := [⟨1, [some 6]⟩], tags := [] }], error := none }]]

/-- Both statements write to the same place. -/
theorem first_statement_lost : (∀ s ∈ inputs usageByStatements, WellFormed s) ∧
    (∀ s ∈ inputs usageByStatements, ∀ l ∈ unsortedLabels s, isShifted l.label = false) ∧
    ¬ ∃ labels rows, groupByTimeSeriesTransform (fun _ => 0) (fun t _ _ => t) usageByStatements false = some (labels, rows) ∧
      Merged usageByStatements labels rows := by
  refine ⟨fun s hs => ?_, by decide +kernel, ?_⟩
  · have hcomplete : ∀ s ∈ inputs usageByStatements, s.values.Pairwise (·.time < ·.time) ∧
        ∀ row ∈ s.values, row.values.length + 1 = s.columns.length := by decide +kernel
    exact ⟨(hcomplete s hs).1, (hcomplete s hs).2⟩
  · rintro ⟨labels, rows, heq, hmerged⟩
    have hresult : groupByTimeSeriesTransform (fun _ => 0) (fun t _ _ => t) usageByStatements false =
        some ([⟨"cpu.usage", 0, 0⟩, ⟨"cpu.usage", 0, 0⟩], [⟨1, [none, some 6]⟩]) := by decide +kernel
    obtain ⟨rfl, rfl⟩ := Prod.mk.inj (Option.some.inj (hresult.symm.trans heq))
    obtain ⟨f, -, -, hplaces⟩ := hmerged.assigned
    have hfirst := (hplaces _ List.mem_cons_self).1 ⟨0, by decide⟩
    have hmem : some 5 ∈ [none, some 6] := List.mem_of_getElem? hfirst
    exact absurd hmem (by decide)

end Graphs
end Chronograf
