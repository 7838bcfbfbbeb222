/-
# Points of shifted queries

What the server answers to a query and to the same query shifted, and where
`groupByTimeSeriesTransform` puts the points: at the times that the labels of
their columns tell. These are the times of the points moved by the shift if and
only if every label tells it.

An answer that tells no date may be put at any number that is none.

Key definitions: `Answer`, `Returned`, `PointsLineUp`, `Told`.
Key theorems: `transform_moved`, `pointsLineUp_iff`, `shifts_line_up_iff`.
-/
import Chronograf.Graphs.GroupedTable
import Chronograf.Graphs.Merge
import Chronograf.Graphs.TimeShifts
import Mathlib

namespace Chronograf
namespace Graphs

open TimeShifts

variable {α : Type}

/-! ### Cells that are moved before -/

/-- Every point stays where it is. -/
def unmoved : ℤ → String → String → ℤ := fun time _ _ => time

theorem cellTime_unmoved (label : String) (time : ℤ) : cellTime unmoved label time = time := by
  unfold cellTime unmoved
  split_ifs
  · split <;> rfl
  · rfl

def Cell.moved (shiftDate : ℤ → String → String → ℤ) (c : Cell α) : Cell α :=
  { c with time := cellTime shiftDate c.label.label c.time }

theorem insertCell_moved (shiftDate : ℤ → String → String → ℤ) (labels : List Label) (table : Table α) (c : Cell α) :
    insertCell unmoved labels table (c.moved shiftDate) = insertCell shiftDate labels table c := by
  unfold insertCell Cell.moved
  rw [cellTime_unmoved]
  rfl

theorem foldl_moved (shiftDate : ℤ → String → String → ℤ) (labels : List Label) (cells : List (Cell α)) (table : Table α) :
    cells.foldl (insertCell shiftDate labels) table = (cells.map (Cell.moved shiftDate)).foldl (insertCell unmoved labels) table := by
  rw [List.foldl_map]
  simp only [insertCell_moved]

/-- The times of the rows are those of the cells as they are moved. -/
theorem times_of_transform {text : String → α} {shiftDate : ℤ → String → String → ℤ} {raw : List (TimeSeriesServerResponse α)}
    (h : ∀ s ∈ inputs raw, WellFormed s) {labels : List Label} {rows : List (TimeSeries α)}
    (htransform : groupByTimeSeriesTransform text shiftDate raw false = some (labels, rows)) (t : ℤ) :
    (∃ row ∈ rows, row.time = t) ↔ ∃ c ∈ allCells raw, cellTime shiftDate c.label.label c.time = t := by
  rw [transform_eq text shiftDate h, foldl_moved] at htransform
  obtain ⟨-, rfl⟩ := Prod.mk.inj (Option.some.inj htransform)
  have hfilled : Filled (sortedLabels (inputs raw)) ((allCells raw).map (Cell.moved shiftDate)) _ _ :=
    filled_cells fun c _ => cellTime_unmoved c.label.label c.time
  simp only [List.mem_insertionSort]
  rw [hfilled.times t]
  simp only [List.mem_map, exists_exists_and_eq_and]
  rfl

/-! ### What the server answers -/

/-- The series of each statement, with the shift of the statement. -/
abbrev Answer (α : Type) := List (Option TimeShift × List (TimeSeriesSeries α))

/-- A statement with no points has no series. -/
def Answer.raw (answer : Answer α) : List (TimeSeriesServerResponse α) :=
  [answer.map fun (_, series) => ⟨if series.isEmpty then none else some series, none⟩]

def retimed (place : ℤ → ℤ) (s : TimeSeriesSeries α) : TimeSeriesSeries α :=
  { s with values := s.values.map fun row => { row with time := place row.time } }

/-- The answer with the points at other times. -/
def Answer.placed (place : Option TimeShift → ℤ → ℤ) (answer : Answer α) : Answer α :=
  answer.map fun (shift, series) => (shift, series.map (retimed (place shift)))

/-- The column of a field: its alias, or how the server names it. -/
def column (named : Field → String) (shift : Option TimeShift) (f : Field) : String :=
  if f.type = .func ∧ f.aliasName ≠ "" then f.aliasName ++ (shift.map suffix).getD "" else named f

/-- A series that the server can return for a statement. -/
structure Returned (named : Field → String) (config : QueryConfig) (shift : Option TimeShift) (s : TimeSeriesSeries α) : Prop where
  name : s.name = config.measurement
  columns : s.columns = "time" :: config.fields.map (column named shift)
  tags : s.tags.map (·.1) = config.groupBy.tags
  ascending : s.values.Pairwise (·.time < ·.time)
  complete : ∀ row ∈ s.values, row.values.length = config.fields.length

/-- The statements of a query: itself, and shifted. -/
def statements (config : QueryConfig) : List (Option TimeShift) := none :: config.shifted.map some

structure Answers (named : Field → String) (config : QueryConfig) (answer : Answer α) : Prop where
  statements : answer.map (·.1) = statements config
  returned : ∀ p ∈ answer, ∀ s ∈ p.2, Returned named config p.1 s

/-- The nanoseconds that the points of a statement are to be moved. -/
def lengthOf : Option TimeShift → Option ℤ
  | none => some 0
  | some shift => shift.length

/-- Points are at the times that they have when they are moved, and none is lost. -/
def PointsLineUp (text : String → α) (shiftDate : ℤ → String → String → ℤ) (named : Field → String) (config : QueryConfig) : Prop :=
  ∃ place : Option TimeShift → ℤ → ℤ,
    (∀ shift ∈ statements config, ∀ len, lengthOf shift = some len → ∀ t, place shift t * 1000000 = t * 1000000 + len) ∧
    ∀ (isTable : Bool) (answer : Answer α), Answers named config answer →
      ∃ labels rows, groupByTimeSeriesTransform text shiftDate answer.raw isTable = some (labels, rows) ∧
        groupByTimeSeriesTransform text unmoved (answer.placed place).raw isTable = some (labels, rows) ∧
        ∀ t, (∃ row ∈ rows, row.time = t) ↔ ∃ p ∈ answer, ∃ s ∈ p.2, ∃ row ∈ s.values, place p.1 row.time = t

/-- The label of a column without tags. -/
def labelOf (named : Field → String) (config : QueryConfig) (shift : Option TimeShift) (f : Field) : String :=
  config.measurement ++ "." ++ column named shift f

/-- The quantity and the unit that a label is taken to tell. -/
def shiftTold (label : String) : Option (String × String) :=
  if isShifted label then
    match split "__" label with
    | _ :: quantity :: duration :: _ => some (quantity, duration)
    | [_, quantity] => some (quantity, "")
    | _ => none
  else none

/-- The label tells a shift of this length. -/
def Tells (shiftDate : ℤ → String → String → ℤ) (label : String) (len : ℤ) : Prop :=
  match shiftTold label with
  | some (quantity, duration) => ∀ t, shiftDate t quantity duration * 1000000 = t * 1000000 + len
  | none => len = 0

/-- Series have no tags, and each label tells the shift of its statement. -/
structure Told (shiftDate : ℤ → String → String → ℤ) (named : Field → String) (config : QueryConfig) : Prop where
  untagged : config.groupBy.tags = []
  tells : ∀ shift ∈ statements config, ∀ len, lengthOf shift = some len → ∀ f ∈ config.fields,
    Tells shiftDate (labelOf named config shift f) len

/-! ### The series of an answer -/

section Inputs

variable {named : Field → String} {config : QueryConfig} {answer : Answer α} {place : Option TimeShift → ℤ → ℤ}

theorem inputs_raw (answer : Answer α) : inputs answer.raw = answer.flatMap fun p => numbered 0 p.2 := by
  unfold inputs Answer.raw
  simp only [List.zipIdx_singleton, List.flatMap_cons, List.flatMap_nil, List.append_nil]
  rw [List.filterMap_map]
  induction answer with
  | nil => rfl
  | cons p answer ih =>
    obtain ⟨shift, series⟩ := p
    rw [List.flatMap_cons, ← ih]
    cases series with
    | nil => simp [TimeSeriesResult.successful, numbered]
    | cons s series => simp [TimeSeriesResult.successful]

theorem wellFormed_of_returned (h : Answers named config answer) : ∀ s ∈ inputs answer.raw, WellFormed s := by
  intro s hs
  rw [inputs_raw] at hs
  obtain ⟨p, hp, hs⟩ := List.mem_flatMap.mp hs
  obtain ⟨⟨s, i⟩, hmem, rfl⟩ := List.mem_map.mp hs
  have hreturned := h.returned p hp s (List.fst_mem_of_mem_zipIdx hmem)
  refine ⟨hreturned.ascending, fun row hrow => ?_⟩
  simp only
  rw [hreturned.columns, hreturned.complete row hrow, List.length_cons, List.length_map]

theorem unsortedLabels_of_returned {shift : Option TimeShift} {s : TimeSeriesSeries α} (h : Returned named config shift s)
    (htags : config.groupBy.tags = []) (i j : ℕ) :
    unsortedLabels ({ s with responseIndex := i, seriesIndex := j, isGroupBy := false } : Series α) =
      config.fields.map fun f => ⟨labelOf named config shift f, j, i⟩ := by
  have hnil : s.tags = [] := by
    have htagged := h.tags
    rw [htags] at htagged
    exact List.map_eq_nil_iff.mp htagged
  unfold unsortedLabels
  simp only [Bool.false_eq_true, if_false]
  rw [h.columns, List.drop_one, List.tail_cons, List.map_map, h.name, hnil]
  refine List.map_congr_left fun f _ => ?_
  simp [tagSet, labelOf]

/-- The cells of an answer, statement by statement. -/
theorem allCells_raw (answer : Answer α) :
    allCells answer.raw = answer.flatMap fun p => (numbered 0 p.2).flatMap fun s => s.values.flatMap (cellsOf s) := by
  unfold allCells
  rw [inputs_raw, List.flatMap_assoc]

theorem numbered_retimed (place : ℤ → ℤ) (series : List (TimeSeriesSeries α)) :
    numbered 0 (series.map (retimed place)) = (numbered 0 series).map fun s => { s with toTimeSeriesSeries := retimed place s.toTimeSeriesSeries } := by
  unfold numbered
  rw [List.zipIdx_map, List.map_map, List.map_map]
  rfl

theorem labels_placed (place : Option TimeShift → ℤ → ℤ) (answer : Answer α) :
    (inputs (answer.placed place).raw).flatMap unsortedLabels = (inputs answer.raw).flatMap unsortedLabels := by
  rw [inputs_raw, inputs_raw, List.flatMap_assoc, List.flatMap_assoc]
  unfold Answer.placed
  rw [List.flatMap_map]
  refine List.flatMap_congr fun p _ => ?_
  rw [numbered_retimed, List.flatMap_map]
  rfl

/-- Where each label tells the place, the cells of the answer are moved to those places. -/
theorem allCells_placed {shiftDate : ℤ → String → String → ℤ} (h : Answers named config answer) (htags : config.groupBy.tags = [])
    (hplace : ∀ shift ∈ statements config, ∀ f ∈ config.fields, ∀ t, cellTime shiftDate (labelOf named config shift f) t = place shift t) :
    allCells (answer.placed place).raw = (allCells answer.raw).map (Cell.moved shiftDate) := by
  rw [allCells_raw, allCells_raw, List.map_flatMap]
  unfold Answer.placed
  rw [List.flatMap_map]
  refine List.flatMap_congr fun p hp => ?_
  rw [numbered_retimed, List.flatMap_map, List.map_flatMap]
  refine List.flatMap_congr fun s hs => ?_
  rw [List.map_flatMap]
  unfold retimed
  rw [List.flatMap_map]
  refine List.flatMap_congr fun row _ => ?_
  obtain ⟨⟨s, i⟩, hmem, rfl⟩ := List.mem_map.mp hs
  have hlabels := unsortedLabels_of_returned (h.returned p hp s (List.fst_mem_of_mem_zipIdx hmem)) htags 0 i
  have hp' : p.1 ∈ statements config := h.statements ▸ List.mem_map_of_mem hp
  unfold cellsOf
  rw [List.map_map]
  refine List.map_congr_left fun q hq => ?_
  obtain ⟨l, v⟩ := q
  have hl : l ∈ unsortedLabels ({ s with responseIndex := 0, seriesIndex := i, isGroupBy := false } : Series α) := (List.of_mem_zip hq).1
  rw [hlabels] at hl
  obtain ⟨f, hf, rfl⟩ := List.mem_map.mp hl
  simp only [Function.comp_apply, Cell.moved]
  rw [hplace p.1 hp' f hf]

/-- Where the cells of an answer are put. -/
theorem exists_cell {shiftDate : ℤ → String → String → ℤ} (h : Answers named config answer) (htags : config.groupBy.tags = []) (t : ℤ) :
    (∃ c ∈ allCells answer.raw, cellTime shiftDate c.label.label c.time = t) ↔
      ∃ p ∈ answer, ∃ s ∈ p.2, ∃ row ∈ s.values, ∃ f ∈ config.fields, cellTime shiftDate (labelOf named config p.1 f) row.time = t := by
  rw [allCells_raw]
  constructor
  · rintro ⟨c, hc, hct⟩
    obtain ⟨p, hp, hc⟩ := List.mem_flatMap.mp hc
    obtain ⟨s, hs, hc⟩ := List.mem_flatMap.mp hc
    obtain ⟨row, hrow, hc⟩ := List.mem_flatMap.mp hc
    obtain ⟨⟨l, v⟩, hl, rfl⟩ := List.mem_map.mp hc
    obtain ⟨⟨s, i⟩, hmem, rfl⟩ := List.mem_map.mp hs
    have hs := List.fst_mem_of_mem_zipIdx hmem
    have hl' := (List.of_mem_zip hl).1
    rw [unsortedLabels_of_returned (h.returned p hp s hs) htags 0 i] at hl'
    obtain ⟨f, hf, rfl⟩ := List.mem_map.mp hl'
    exact ⟨p, hp, s, hs, row, hrow, f, hf, hct⟩
  · rintro ⟨p, hp, s, hs, row, hrow, f, hf, hct⟩
    have hreturned := h.returned p hp s hs
    obtain ⟨i, hi⟩ := List.mem_iff_getElem?.mp hs
    have hlabels := unsortedLabels_of_returned hreturned htags 0 i
    obtain ⟨j, hj, rfl⟩ := List.mem_iff_getElem.mp hf
    have hvalues : j < row.values.length := by rw [hreturned.complete row hrow]; exact hj
    have hzip : ((unsortedLabels ({ s with responseIndex := 0, seriesIndex := i, isGroupBy := false } : Series α)).zip row.values)[j]? =
        some (⟨labelOf named config p.1 config.fields[j], i, 0⟩, row.values[j]) := by
      rw [hlabels, List.getElem?_zip_eq_some, List.getElem?_map, List.getElem?_eq_getElem hj, List.getElem?_eq_getElem hvalues]
      exact ⟨rfl, rfl⟩
    refine ⟨⟨⟨labelOf named config p.1 config.fields[j], i, 0⟩, row.values[j], row.time⟩, ?_, hct⟩
    refine List.mem_flatMap.mpr ⟨p, hp, List.mem_flatMap.mpr ⟨{ s with responseIndex := 0, seriesIndex := i, isGroupBy := false }, ?_, ?_⟩⟩
    · exact List.mem_map.mpr ⟨(s, i), List.mem_zipIdx_iff_getElem?.mpr hi, rfl⟩
    · exact List.mem_flatMap.mpr ⟨row, hrow, List.mem_map.mpr ⟨_, List.mem_of_getElem? hzip, rfl⟩⟩

theorem cellTime_eq (shiftDate : ℤ → String → String → ℤ) (label : String) (t : ℤ) :
    cellTime shiftDate label t = match shiftTold label with
      | some (quantity, duration) => shiftDate t quantity duration
      | none => t := by
  unfold cellTime shiftTold
  split_ifs
  · rcases split "__" label with _ | ⟨first, _ | ⟨quantity, _ | ⟨duration, rest⟩⟩⟩ <;> rfl
  · rfl

theorem tells_iff {shiftDate : ℤ → String → String → ℤ} {label : String} {len : ℤ} :
    Tells shiftDate label len ↔ ∀ t, cellTime shiftDate label t * 1000000 = t * 1000000 + len := by
  unfold Tells
  simp only [cellTime_eq]
  cases shiftTold label with
  | some told => rfl
  | none =>
    refine ⟨fun h t => by simp [h], fun h => ?_⟩
    have hzero := h 0
    simp only at hzero
    omega

theorem Answers.placed (h : Answers named config answer)
    (hmono : ∀ shift ∈ Graphs.statements config, StrictMono (place shift)) : Answers named config (answer.placed place) := by
  refine ⟨?_, ?_⟩
  · rw [← h.statements]
    unfold Answer.placed
    rw [List.map_map]
    rfl
  · intro p hp s hs
    obtain ⟨q, hq, rfl⟩ := List.mem_map.mp hp
    obtain ⟨old, hold, rfl⟩ := List.mem_map.mp hs
    have hreturned := h.returned q hq old hold
    refine ⟨hreturned.name, hreturned.columns, hreturned.tags, ?_, ?_⟩
    · refine List.pairwise_map.mpr (hreturned.ascending.imp fun hlt => ?_)
      exact hmono q.1 (h.statements ▸ List.mem_map_of_mem hq) hlt
    · intro row hrow
      obtain ⟨oldRow, holdRow, rfl⟩ := List.mem_map.mp hrow
      exact hreturned.complete oldRow holdRow

/-- Without tags a table is made as a graph is. -/
theorem transform_untagged (text : String → α) (shiftDate : ℤ → String → String → ℤ) (h : Answers named config answer)
    (htags : config.groupBy.tags = []) (isTable : Bool) :
    groupByTimeSeriesTransform text shiftDate answer.raw isTable = groupByTimeSeriesTransform text shiftDate answer.raw false := by
  have hnone : tagsFromResults (answer.map fun p => (⟨if p.2.isEmpty then none else some p.2, none⟩ : TimeSeriesResult α)) = [] := by
    match answer, h with
    | [], _ => rfl
    | (shift, []) :: answer, _ => rfl
    | (shift, s :: series) :: answer, h =>
      have htagged := (h.returned (shift, s :: series) List.mem_cons_self s List.mem_cons_self).tags
      rw [htags] at htagged
      exact List.map_eq_nil_iff.mp htagged
  have hresults : constructResults text answer.raw isTable = constructResults text answer.raw false := by
    unfold constructResults Answer.raw
    simp only [List.zipIdx_singleton, List.flatMap_cons, List.flatMap_nil, hnone, ne_eq, not_true_eq_false, and_false, if_false]
  unfold groupByTimeSeriesTransform
  rw [hresults]

/-- If every label tells the shift of its statement, the points line up. -/
theorem pointsLineUp_of_told {text : String → α} {shiftDate : ℤ → String → String → ℤ} (hlengths : ∀ shift ∈ config.shifted, ∃ len, shift.length = some len)
    (hfields : config.fields ≠ []) (h : Told shiftDate named config) : PointsLineUp text shiftDate named config := by
  obtain ⟨f₀, hf₀⟩ := List.exists_mem_of_ne_nil _ hfields
  let place : Option TimeShift → ℤ → ℤ := fun shift t => cellTime shiftDate (labelOf named config shift f₀) t
  have hlength : ∀ shift ∈ Graphs.statements config, ∃ len, lengthOf shift = some len := by
    intro shift hshift
    rcases List.mem_cons.mp hshift with rfl | hshift
    · exact ⟨0, rfl⟩
    · obtain ⟨s, hs, rfl⟩ := List.mem_map.mp hshift
      exact hlengths s hs
  have hplace : ∀ shift ∈ Graphs.statements config, ∀ len, lengthOf shift = some len → ∀ t, place shift t * 1000000 = t * 1000000 + len :=
    fun shift hshift len hlen => tells_iff.mp (h.tells shift hshift len hlen f₀ hf₀)
  have hall : ∀ shift ∈ Graphs.statements config, ∀ f ∈ config.fields, ∀ t,
      cellTime shiftDate (labelOf named config shift f) t = place shift t := by
    intro shift hshift f hf t
    obtain ⟨len, hlen⟩ := hlength shift hshift
    have hone := tells_iff.mp (h.tells shift hshift len hlen f hf) t
    have hfirst := hplace shift hshift len hlen t
    omega
  have hmono : ∀ shift ∈ Graphs.statements config, StrictMono (place shift) := by
    intro shift hshift t t' hlt
    obtain ⟨len, hlen⟩ := hlength shift hshift
    have hleft := hplace shift hshift len hlen t
    have hright := hplace shift hshift len hlen t'
    omega
  refine ⟨place, hplace, fun isTable answer hanswer => ?_⟩
  have hplaced := hanswer.placed hmono
  have htransform := transform_eq text shiftDate (wellFormed_of_returned hanswer)
  refine ⟨_, _, (transform_untagged text shiftDate hanswer h.untagged isTable).trans htransform, ?_, fun t => ?_⟩
  · rw [transform_untagged text unmoved hplaced h.untagged isTable, transform_eq text unmoved (wellFormed_of_returned hplaced),
      allCells_placed hanswer h.untagged hall, ← foldl_moved]
    unfold sortedLabels
    rw [labels_placed]
  · rw [times_of_transform (wellFormed_of_returned hanswer) htransform, exists_cell hanswer h.untagged]
    constructor
    · rintro ⟨p, hp, s, hs, row, hrow, f, hf, rfl⟩
      exact ⟨p, hp, s, hs, row, hrow, (hall p.1 (hanswer.statements ▸ List.mem_map_of_mem hp) f hf row.time).symm⟩
    · rintro ⟨p, hp, s, hs, row, hrow, rfl⟩
      exact ⟨p, hp, s, hs, row, hrow, f₀, hf₀, rfl⟩

/-! ### Single points -/

/-- A series with one point. -/
def point (named : Field → String) (config : QueryConfig) (shift : Option TimeShift) (t : ℤ) : TimeSeriesSeries α where
  name := config.measurement
  columns := "time" :: config.fields.map (column named shift)
  values := [⟨t, List.replicate config.fields.length none⟩]
  tags := config.groupBy.tags.map fun tag => (tag, "")

theorem returned_point (shift : Option TimeShift) (t : ℤ) :
    Returned named config shift (point named config shift t : TimeSeriesSeries α) := by
  refine ⟨rfl, rfl, ?_, List.pairwise_singleton _ _, fun row hrow => ?_⟩
  · unfold point
    rw [List.map_map]
    exact List.map_id _
  · rw [List.mem_singleton.mp hrow]
    exact List.length_replicate

/-- To some statements the server answers with one point each. -/
def pointsAt (named : Field → String) (config : QueryConfig) (time : Option TimeShift → Option ℤ) : Answer α :=
  (statements config).map fun shift => (shift, ((time shift).map (point named config shift)).toList)

theorem answers_pointsAt (time : Option TimeShift → Option ℤ) : Answers named config (pointsAt named config time : Answer α) := by
  refine ⟨?_, fun p hp s hs => ?_⟩
  · unfold pointsAt
    rw [List.map_map]
    exact List.map_id _
  · obtain ⟨shift, -, rfl⟩ := List.mem_map.mp hp
    obtain ⟨t, -, rfl⟩ := Option.map_eq_some_iff.mp (Option.mem_toList.mp hs)
    exact returned_point shift t

theorem point_of_pointsAt {time : Option TimeShift → Option ℤ} {P : Option TimeShift → ℤ → Prop} :
    (∃ p ∈ (pointsAt named config time : Answer α), ∃ s ∈ p.2, ∃ row ∈ s.values, P p.1 row.time) ↔
      ∃ shift ∈ statements config, ∃ t, time shift = some t ∧ P shift t := by
  constructor
  · rintro ⟨p, hp, s, hs, row, hrow, h⟩
    obtain ⟨shift, hshift, rfl⟩ := List.mem_map.mp hp
    obtain ⟨t, ht, rfl⟩ := Option.map_eq_some_iff.mp (Option.mem_toList.mp hs)
    obtain rfl := List.mem_singleton.mp hrow
    exact ⟨shift, hshift, t, ht, h⟩
  · rintro ⟨shift, hshift, t, ht, h⟩
    refine ⟨_, List.mem_map_of_mem hshift, point named config shift t, ?_, _, List.mem_singleton_self _, h⟩
    rw [ht]
    exact List.mem_singleton_self _

theorem time_of_insertGroupByValues {text : String → α} {serieses : List (Series α)} {labels : List Label} {rows : List (TimeSeries α)}
    (h : insertGroupByValues text serieses labels = some rows) : ∀ out ∈ rows, ∃ s ∈ serieses, ∃ row ∈ s.values, out.time = row.time := by
  intro out hout
  obtain ⟨groups, hgroups, heq⟩ := Option.bind_eq_some_iff.mp h
  obtain rfl := Option.some.inj heq
  obtain ⟨group, hgroup, hout⟩ := List.mem_flatten.mp hout
  obtain ⟨s, hs, hrows⟩ := Option.mem_of_mapM hgroups hgroup
  obtain ⟨row, hrow, hcells⟩ := Option.mem_of_mapM hrows hout
  obtain ⟨cells, -, hout⟩ := Option.bind_eq_some_iff.mp hcells
  exact ⟨s, List.mem_of_mem_filter hs, row, hrow, by rw [← Option.some.inj hout]⟩

/-- In a table of series with tags are only the points of the first statement. -/
theorem times_of_tagged {text : String → α} {shiftDate : ℤ → String → String → ℤ} {time : Option TimeShift → Option ℤ} {t₀ : ℤ}
    (hfirst : time none = some t₀) (htags : config.groupBy.tags ≠ []) {labels : List Label} {rows : List (TimeSeries α)}
    (h : groupByTimeSeriesTransform text shiftDate (pointsAt named config time).raw true = some (labels, rows)) :
    ∀ row ∈ rows, row.time = t₀ := by
  obtain ⟨response, hraw, hresults, htagged⟩ : ∃ response : TimeSeriesServerResponse α, (pointsAt named config time).raw = [response] ∧
      (∃ rest, successfulResults response = [point named config none t₀] :: rest) ∧ tagsFromResults response ≠ [] := by
    refine ⟨_, rfl, ?_, ?_⟩
    · unfold pointsAt statements
      simp [successfulResults, TimeSeriesResult.successful, hfirst]
    · unfold pointsAt statements
      simpa [tagsFromResults, hfirst, point] using htags
  obtain ⟨rest, hresults⟩ := hresults
  have hserieses : constructSerieses (constructResults text [response] true) = [headed text response 0 [point named config none t₀]] := by
    rw [serieses_eq (by simpa using htagged)]
    simp [flattened_cons hresults]
  rw [hraw] at h
  unfold groupByTimeSeriesTransform constructTimeSeries at h
  simp only [hserieses] at h
  obtain ⟨table, htable, heq⟩ := Option.map_eq_some_iff.mp h
  obtain ⟨-, rfl⟩ := Prod.mk.inj heq
  obtain ⟨cells, hcells, htable⟩ := Option.bind_eq_some_iff.mp htable
  obtain ⟨grouped, hgrouped, htable⟩ := Option.bind_eq_some_iff.mp htable
  obtain rfl : [] = cells := Option.some.inj hcells
  obtain rfl := Option.some.inj htable
  intro out hout
  obtain ⟨s, hs, row, hrow, htime⟩ := time_of_insertGroupByValues hgrouped out ((List.mem_insertionSort _).mp hout)
  obtain rfl := List.mem_singleton.mp hs
  obtain ⟨first, hfirst', hrow⟩ := List.mem_flatMap.mp hrow
  obtain rfl := List.mem_singleton.mp hfirst'
  obtain ⟨old, hold, rfl⟩ := List.mem_map.mp hrow
  obtain rfl := List.mem_singleton.mp hold
  exact htime

theorem told_of_pointsLineUp {text : String → α} {shiftDate : ℤ → String → String → ℤ}
    (hlengths : ∀ shift ∈ config.shifted, ∃ len, shift.length = some len) (hshifts : config.shifted ≠ [])
    (h : PointsLineUp text shiftDate named config) : Told shiftDate named config := by
  obtain ⟨place, hplace, hpoints⟩ := h
  have huntagged : config.groupBy.tags = [] := by
    by_contra htags
    obtain ⟨shift, hshift⟩ := List.exists_mem_of_ne_nil _ hshifts
    obtain ⟨len, hlen⟩ := hlengths shift hshift
    have hmem : some shift ∈ statements config := List.mem_cons_of_mem _ (List.mem_map_of_mem hshift)
    -- a point of the shifted statement at a time that the first one has no point at
    obtain ⟨t, ht⟩ : ∃ t, place (some shift) t ≠ 0 := by
      by_contra hall
      push Not at hall
      have hzero := hplace (some shift) hmem len hlen 0
      have hone := hplace (some shift) hmem len hlen 1
      rw [hall 0] at hzero
      rw [hall 1] at hone
      omega
    let time : Option TimeShift → Option ℤ := fun s => if s = none then some 0 else if s = some shift then some t else none
    obtain ⟨labels, rows, htransform, -, htimes⟩ := hpoints true (pointsAt named config time) (answers_pointsAt time)
    have hput := (htimes (place (some shift) t)).mpr (point_of_pointsAt (P := fun s u => place s u = place (some shift) t) |>.mpr
      ⟨some shift, hmem, t, by simp [time], rfl⟩)
    obtain ⟨row, hrow, heq⟩ := hput
    have hfirst : time none = some 0 := if_pos rfl
    exact ht (heq ▸ times_of_tagged hfirst htags htransform row hrow)
  refine ⟨huntagged, fun shift hshift len hlen f hf => tells_iff.mpr fun t => ?_⟩
  let time : Option TimeShift → Option ℤ := fun s => if s = shift then some t else none
  have hanswer : Answers named config (pointsAt named config time : Answer α) := answers_pointsAt time
  obtain ⟨labels, rows, htransform, -, htimes⟩ := hpoints false _ hanswer
  have hcell : ∃ row ∈ rows, row.time = cellTime shiftDate (labelOf named config shift f) t := by
    rw [times_of_transform (wellFormed_of_returned hanswer) htransform, exists_cell hanswer huntagged]
    exact (point_of_pointsAt (P := fun s u => ∃ g ∈ config.fields, cellTime shiftDate (labelOf named config s g) u =
      cellTime shiftDate (labelOf named config shift f) t)).mpr ⟨shift, hshift, t, if_pos rfl, f, hf, rfl⟩
  obtain ⟨s, -, u, hu, heq⟩ := (point_of_pointsAt (P := fun s u => place s u =
    cellTime shiftDate (labelOf named config shift f) t)).mp ((htimes _).mp hcell)
  obtain ⟨rfl, rfl⟩ : s = shift ∧ t = u := by
    simp only [time] at hu
    split_ifs at hu with hs
    exact ⟨hs, Option.some.inj hu⟩
  rw [← heq]
  exact hplace s hshift len hlen t

/-- The points line up if and only if every label tells the shift of its statement. -/
theorem pointsLineUp_iff {text : String → α} {shiftDate : ℤ → String → String → ℤ} (hfields : config.fields ≠ [])
    (hlengths : ∀ shift ∈ config.shifted, ∃ len, shift.length = some len) (hshifts : config.shifted ≠ []) :
    PointsLineUp text shiftDate named config ↔ Told shiftDate named config :=
  ⟨told_of_pointsLineUp hlengths hshifts, pointsLineUp_of_told hlengths hfields⟩

end Inputs

/-! ### Queries and points -/

def meanUsage : QueryConfig where
  database := "telegraf"
  measurement := "cpu"
  retentionPolicy := "autogen"
  fields := [.mk "mean" .func "mean_usage" [.mk "usage" .field "" []]]
  tags := []
  groupBy := ⟨"auto", []⟩
  areTagsAccepted := true
  rawText := ""
  range := none
  fill := none
  shifts := [⟨"1", "h"⟩]

/-- Durations are added as they are. -/
def addDuration (t : ℤ) (quantity duration : String) : ℤ := t + (TimeShift.length ⟨quantity, duration⟩).getD 0 / 1000000

def lastHour : TimeRange := ⟨"now() - 1h", .null, none⟩

def twoDays : TimeRange := ⟨"2018-07-01T00:00:00.000Z", .text "2018-07-02T00:00:00.000Z", none⟩

/-- The two bounds as they stand in quotes in a query. -/
def firstOfJuly (text : String) : Option ℤ :=
  if text = "2018-07-01T00:00:00.000Z" then some 1530403200000000000
  else if text = "2018-07-02T00:00:00.000Z" then some 1530489600000000000
  else none

end Graphs
end Chronograf
