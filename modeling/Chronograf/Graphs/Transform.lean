/-
# Time series of several responses

`groupByTimeSeriesTransform` of `utils/groupByTimeSeriesTransform.ts` puts the
series of all responses into one table with a row for each time. A value finds
its column by a key, the label followed by the numbers of the response and of
the series in its statement. For a table, the series of a grouped query are first
flattened into one.

Values that are not null are of any type. A row with more values than there are
labels throws. How a time is shifted by the moment library is a parameter.

Key definitions: `TimeSeriesSeries`, `constructResults`, `constructCells`,
`labelsToValueIndex`, `constructTimeSeries`, `groupByTimeSeriesTransform`.
-/
import Chronograf.Types
import Mathlib.Data.List.Infix
import Mathlib.Data.List.Sort
import Mathlib.Data.Nat.Notation
import Mathlib.Logic.Function.Basic

namespace Chronograf
namespace Graphs

/-- A row of a series: the first value, its time, and the others. -/
structure Row (α : Type) where
  time : ℤ
  values : List (Option α)

structure TimeSeriesSeries (α : Type) where
  name : String
  columns : List String
  values : List (Row α)
  tags : List (String × String)

structure TimeSeriesResult (α : Type) where
  series : Option (List (TimeSeriesSeries α))
  error : Option String

/-- The results of a response. -/
abbrev TimeSeriesServerResponse (α : Type) := List (TimeSeriesResult α)

structure Result (α : Type) where
  series : List (TimeSeriesSeries α)
  responseIndex : ℕ
  isGroupBy : Bool

structure Series (α : Type) extends TimeSeriesSeries α where
  responseIndex : ℕ
  seriesIndex : ℕ
  isGroupBy : Bool

structure Label where
  label : String
  seriesIndex : ℕ
  responseIndex : ℕ
  deriving DecidableEq

structure Cell (α : Type) where
  label : Label
  value : Option α
  time : ℤ

structure TimeSeries (α : Type) where
  time : ℤ
  values : List (Option α)
  deriving DecidableEq

variable {α : Type}

/-! ### Results and series -/

/-- The series of a result that has some and no error. -/
def TimeSeriesResult.successful (r : TimeSeriesResult α) : Option (List (TimeSeriesSeries α)) :=
  if r.error.isSome then none else r.series

/-- One series, with the columns, tags and name of the first one; the values
of the tags stand after the time. -/
def flattenGroupBySeries (text : String → α) (results : List (List (TimeSeriesSeries α))) (responseIndex : ℕ)
    (tags : List (String × String)) : List (Result α) :=
  match results with
  | [] => []
  | seriesArray :: _ =>
    let accumulatedValues := seriesArray.flatMap fun s => s.values.map fun row =>
      { row with values := tags.map (fun tag => (s.tags.lookup tag.1).map text) ++ row.values }
    [{ series := [{ columns := (seriesArray.head?.map (·.columns)).getD []
                    tags := (seriesArray.head?.map (·.tags)).getD []
                    name := (seriesArray.head?.map (·.name)).getD ""
                    values := accumulatedValues }]
       responseIndex := responseIndex
       isGroupBy := true }]

/-- The tags of the first series of the first result. -/
def tagsFromResults (response : TimeSeriesServerResponse α) : List (String × String) :=
  match response with
  | { series := some (s :: _), .. } :: _ => s.tags
  | _ => []

def constructResults (text : String → α) (raw : List (TimeSeriesServerResponse α)) (isTable : Bool) : List (Result α) :=
  raw.zipIdx.flatMap fun (response, index) =>
    let successfulResults := response.filterMap TimeSeriesResult.successful
    if isTable ∧ tagsFromResults response ≠ [] then
      flattenGroupBySeries text successfulResults index (tagsFromResults response)
    else successfulResults.map fun series => ⟨series, index, false⟩

def constructSerieses (results : List (Result α)) : List (Series α) :=
  results.flatMap fun r => r.series.zipIdx.map fun (s, index) => { s with
    responseIndex := r.responseIndex, seriesIndex := index, isGroupBy := r.isGroupBy }

/-! ### Labels and cells -/

def tagSet (tags : List (String × String)) : String :=
  String.join ((tags.map fun tag => "[" ++ tag.1 ++ "=" ++ tag.2 ++ "]").insertionSort (· ≤ ·))

def unsortedLabels (s : Series α) : List Label :=
  if s.isGroupBy then
    s.tags.map (fun tag => ⟨tag.1, s.seriesIndex, s.responseIndex⟩) ++
      (s.columns.drop 1).map fun field => ⟨s.name ++ "." ++ field, s.seriesIndex, s.responseIndex⟩
  else (s.columns.drop 1).map fun field => ⟨s.name ++ "." ++ field ++ tagSet s.tags, s.seriesIndex, s.responseIndex⟩

/-- The values of a row with the labels of their columns. -/
def labelled (s : Series α) (row : Row α) : Option (List (Cell α)) :=
  if row.values.length ≤ (unsortedLabels s).length then
    some (((unsortedLabels s).zip row.values).map fun (label, value) => ⟨label, value, row.time⟩)
  else none

/-- The cells of the series that are not grouped, row by row. -/
def constructCells (serieses : List (Series α)) : Option (List (Cell α)) := do
  let cells ← (serieses.filter (!·.isGroupBy)).mapM fun s => s.values.mapM (labelled s)
  return cells.flatten.flatten

def sortedLabels (serieses : List (Series α)) : List Label :=
  (serieses.flatMap unsortedLabels).insertionSort (·.label ≤ ·.label)

/-! ### The table -/

/-- The text that a column is found by. -/
def Label.key (l : Label) : String := l.label ++ Nat.repr l.responseIndex ++ Nat.repr l.seriesIndex

/-- The last place of each key. -/
def labelsToValueIndex (labels : List Label) : String → Option ℕ :=
  labels.zipIdx.foldl (fun acc (l, i) => Function.update acc l.key (some i)) fun _ => none

/-- `values[index] = value` -/
def assign (values : List (Option α)) (index : Option ℕ) (value : Option α) : List (Option α) :=
  match index with
  | some i => values.set i value
  | none => values

/-- The rows of the grouped series; a cell that is none of the row's own is `-`. -/
def insertGroupByValues (text : String → α) (serieses : List (Series α)) (labels : List Label) :
    Option (List (TimeSeries α)) := do
  let rows ← (serieses.filter (·.isGroupBy)).mapM fun s => s.values.mapM fun row => do
    let cells ← labelled s row
    let values := cells.foldl (fun values cell => assign values (labelsToValueIndex labels cell.label.key) cell.value)
      (List.replicate labels.length (some (text "-")))
    return ⟨row.time, values⟩
  return rows.flatten

/-- The rows, and which of them a time has. -/
structure Table (α : Type) where
  timeSeries : List (TimeSeries α)
  tsMemo : ℤ → Option ℕ

/-- The words of a text, of which the last `k` characters of a separator are left. -/
def splitFrom (separator : List Char) : ℕ → List Char → List Char → List (List Char)
  | _, word, [] => [word]
  | k + 1, word, _ :: s => splitFrom separator k word s
  | 0, word, c :: s =>
    if separator.isPrefixOf (c :: s) then word :: splitFrom separator (separator.length - 1) [] s
    else splitFrom separator 0 (word ++ [c]) s

/-- `text.split(separator)` -/
def split (separator text : String) : List String := (splitFrom separator.toList 0 [] text.toList).map String.ofList

def isShifted (label : String) : Bool := "_shifted__".toList <:+: label.toList

/-- The time of a cell; a label that tells a shift is undone by the quantity and
the duration between its underscores, a duration that is missing being as good
as an empty one. -/
def cellTime (shiftDate : ℤ → String → String → ℤ) (label : String) (time : ℤ) : ℤ :=
  if isShifted label then
    match split "__" label with
    | _ :: quantity :: duration :: _ => shiftDate time quantity duration
    | [_, quantity] => shiftDate time quantity ""
    | _ => time
  else time

/-- The row of a time, which is a new one if there is none yet. -/
def existingRow (width : ℕ) (table : Table α) (time : ℤ) : Table α × ℕ :=
  match table.tsMemo time with
  | some i => (table, i)
  | none => ({ timeSeries := table.timeSeries ++ [⟨time, List.replicate width none⟩]
               tsMemo := Function.update table.tsMemo time (some table.timeSeries.length) }, table.timeSeries.length)

/-- The value of a cell in its column of the row. -/
def putValue (labels : List Label) (cell : Cell α) (row : TimeSeries α) : TimeSeries α :=
  { row with values := assign row.values (labelsToValueIndex labels cell.label.key) cell.value }

def insertCell (shiftDate : ℤ → String → String → ℤ) (labels : List Label) (table : Table α) (cell : Cell α) : Table α :=
  let (table, existingRowIndex) := existingRow labels.length table (cellTime shiftDate cell.label.label cell.time)
  { table with timeSeries := table.timeSeries.modify existingRowIndex (putValue labels cell) }

def constructTimeSeries (text : String → α) (shiftDate : ℤ → String → String → ℤ) (serieses : List (Series α)) :
    Option (List (TimeSeries α)) := do
  let labels := sortedLabels serieses
  let cells ← constructCells serieses
  let timeSeries ← insertGroupByValues text serieses labels
  let table := cells.foldl (insertCell shiftDate labels) ⟨timeSeries, fun _ => none⟩
  return table.timeSeries.insertionSort (·.time ≤ ·.time)

/-- The labels of the columns, and the rows. -/
def groupByTimeSeriesTransform (text : String → α) (shiftDate : ℤ → String → String → ℤ)
    (raw : List (TimeSeriesServerResponse α)) (isTable : Bool) : Option (List Label × List (TimeSeries α)) :=
  let serieses := constructSerieses (constructResults text raw isTable)
  (constructTimeSeries text shiftDate serieses).map fun timeSeries => (sortedLabels serieses, timeSeries)

end Graphs
end Chronograf
