/-
# Meta queries

`parseMetaQuery` of `tempVars/parsing/index.ts` with the parsers
`shared/parsing/show*`. Each parser reads some of the series of a reply; what it
returns is complete and without repetition if these hold every value of the
reply and none twice.

Key definitions: `parseMetaQuery`, `WellFormed`, `items`, `Complete`, `readSeries`, `AllRead`.
Key theorem: `meta_query_values_iff`.
-/
import Chronograf.Lib.Objects
import Chronograf.Lib.Unique
import Chronograf.TempVars.Templates

namespace Chronograf
namespace MetaQueries

/-! ### Replies -/

structure Series where
  name : String
  columns : List String
  values : Option (List (List String))
  deriving DecidableEq

structure Result where
  error : Option String
  series : Option (List Series)
  deriving DecidableEq

structure Response where
  results : List Result
  deriving DecidableEq

/-- `result.error`, of which an empty text counts as none. -/
def Result.failure (r : Result) : Option String := r.error.filter (· ≠ "")

/-- `columns.indexOf`, of which `-1` reads nothing. -/
def cell (columns : List String) (column : String) (row : List String) : Option String := (columns.idxOf? column).bind (row[·]?)

/-! ### Parsers

A value that a row does not have is `undefined`, here `none`. Reading a property
of `undefined` is a `TypeError`. -/

structure Parsed where
  errors : List String
  values : List (Option String)

/-- The rows of a series; without `values` mapping them is a `TypeError`. -/
def Series.rows (s : Series) : Except String (List (List String)) :=
  match s.values with
  | some values => .ok values
  | none => .error "TypeError"

/-- `series[0]` and a property of it. -/
def firstSeries (series : List Series) : Except String Series :=
  match series with
  | s :: _ => .ok s
  | [] => .error "TypeError"

def firstResult (response : Response) : Except String Result :=
  match response.results with
  | r :: _ => .ok r
  | [] => .error "TypeError"

def parseShowDatabases (response : Response) : Except String Parsed := do
  let results ← firstResult response
  match results.failure with
  | some err => return ⟨[err], []⟩
  | none =>
    match results.series with
    | none => throw "TypeError"
    | some series =>
      let series ← firstSeries series
      return ⟨[], (series.values.getD []).map (·[0]?)⟩

/-- `parseShowSeries`; `getDeep` gives no values where there are none. -/
def parseShowSeries (response : Response) : Except String Parsed := do
  let results ← firstResult response
  match results.failure with
  | some err => return ⟨[err], []⟩
  | none => return ⟨[], (((results.series.getD []).head?.bind Series.values).getD []).map (·[0]?)⟩

def parseShowTagKeys (response : Response) : Except String Parsed := do
  let results ← firstResult response
  match results.failure with
  | some err => return ⟨[err], []⟩
  | none =>
    match results.series with
    | none => return ⟨[], []⟩
    | some series =>
      let series ← firstSeries series
      return ⟨[], (series.values.getD []).map (·[0]?)⟩

/-- The first series of each result. The error of a result is an object in the
list of errors. -/
def parseShowMeasurements (response : Response) : Except String Parsed :=
  response.results.foldlM (fun parsed result =>
    match result.failure with
    | some _ => .ok { parsed with errors := parsed.errors ++ ["[object Object]"] }
    | none =>
      match result.series with
      | none => .ok parsed
      | some series => do
        let series ← firstSeries series
        let rows ← series.rows
        return { parsed with values := parsed.values ++ rows.map (cell series.columns "name") }) ⟨[], []⟩

/-- `fieldSets[measurement] = fields`, which sets no property of this name. -/
def prototypeKey : String := "__proto__"

/-- The errors, and the fields by measurement. -/
def parseFieldSets (response : Response) : Except String (List String × Props (List (Option String))) :=
  response.results.foldlM (fun parsed result =>
    match result.failure with
    | some err => .ok (parsed.1 ++ [err], parsed.2)
    | none =>
      match result.series with
      | none => .ok parsed
      | some series => do
        let series ← firstSeries series
        let rows ← series.rows
        return if series.name = prototypeKey then parsed
          else (parsed.1, parsed.2.set series.name (rows.map (cell series.columns "fieldKey")))) ([], .empty)

def parseShowFieldKeys (response : Response) : Except String Parsed := do
  let (errors, fieldSets) ← parseFieldSets response
  return ⟨errors, (fieldSets.values Templates.arrayIndex).flatten⟩

/-- `tags[tagKey].push(tagValue)`; an inherited property cannot be pushed to. -/
def pushTag (columns : List String) (tags : Props (List (Option String))) (row : List String) :
    Except String (Props (List (Option String))) :=
  let tagKey := (cell columns "key" row).getD "undefined"
  if tagKey ∈ Props.inherited then .error "TypeError" else .ok (tags.push tagKey (cell columns "value" row))

def parseTags (series : List Series) : Except String (Props (List (Option String))) :=
  series.foldlM (fun tags s => do
    let rows ← s.rows
    rows.foldlM (pushTag s.columns) tags) .empty

/-- `undefined` comes last. -/
def sortLe (a b : Option String) : Prop :=
  match a, b with
  | some a, some b => a ≤ b
  | none, some _ => False
  | _, none => True

instance : DecidableRel sortLe := fun a b =>
  match a, b with
  | some a, some b => inferInstanceAs (Decidable (a ≤ b))
  | none, some _ => inferInstanceAs (Decidable False)
  | some _, none => inferInstanceAs (Decidable True)
  | none, none => inferInstanceAs (Decidable True)

/-- `_.uniq(v).sort()`. -/
def uniqSorted (v : List (Option String)) : List (Option String) := (uniqBy id v).insertionSort sortLe

/-- An error gives no tags, and is not passed on. -/
def parseShowTagValues (response : Response) : Except String Parsed := do
  let result ← firstResult response
  match result.failure with
  | some _ => return ⟨[], []⟩
  | none =>
    let tags ← parseTags (result.series.getD [])
    return ⟨[], ((tags.map uniqSorted).values Templates.arrayIndex).flatten⟩

/-! ### Queries -/

inductive Prefix
  | showDatabases | showMeasurements | showSeries | showTagValues | showFieldKeys | showTagKeys
  deriving DecidableEq

def Prefix.text : Prefix → String
  | showDatabases => "SHOW DATABASES"
  | showMeasurements => "SHOW MEASUREMENTS"
  | showSeries => "SHOW SERIES"
  | showTagValues => "SHOW TAG VALUES"
  | showFieldKeys => "SHOW FIELD KEYS"
  | showTagKeys => "SHOW TAG KEYS"

def validMetaQueryPrefixes : List Prefix := [.showDatabases, .showMeasurements, .showSeries, .showTagValues, .showFieldKeys, .showTagKeys]

/-- The words of a query, upper-cased and trimmed by the string functions of the browser. -/
def getMetaQueryPrefix (upperTrimmed : String → String) (metaQuery : String) : Option Prefix :=
  let words := (upperTrimmed metaQuery).toList.splitOn ' '
  let firstTwoWords := String.ofList ([' '].intercalate (words.take 2))
  let firstThreeWords := String.ofList ([' '].intercalate (words.take 3))
  validMetaQueryPrefixes.find? fun q => q.text = firstTwoWords ∨ q.text = firstThreeWords

/-- `PARSERS`, with what `EXTRACTORS` takes of each. -/
def Prefix.parse : Prefix → Response → Except String Parsed
  | showDatabases => parseShowDatabases
  | showMeasurements => parseShowMeasurements
  | showSeries => parseShowSeries
  | showTagValues => parseShowTagValues
  | showFieldKeys => parseShowFieldKeys
  | showTagKeys => parseShowTagKeys

def parseMetaQuery (upperTrimmed : String → String) (metaQuery : String) (response : Response) : Except String (List (Option String)) :=
  match getMetaQueryPrefix upperTrimmed metaQuery with
  | none => .error "Could not find parser for meta query"
  | some p => do
    let parsed ← p.parse response
    if parsed.errors ≠ [] then throw (",".intercalate parsed.errors) else return parsed.values

/-! ### What a reply holds -/

/-- The columns of a reply, and which one of them is asked for. -/
def Prefix.columns : Prefix → List String × ℕ
  | showDatabases => (["name"], 0)
  | showMeasurements => (["name"], 0)
  | showSeries => (["key"], 0)
  | showTagValues => (["key", "value"], 1)
  | showFieldKeys => (["fieldKey", "fieldType"], 0)
  | showTagKeys => (["tagKey"], 0)

/-- A reply of InfluxDB without errors: a list of series is not empty, and the
rows are of the columns. -/
structure WellFormed (p : Prefix) (response : Response) : Prop where
  no_error : ∀ r ∈ response.results, r.error = none
  series : ∀ r ∈ response.results, r.series ≠ some []
  columns : ∀ r ∈ response.results, ∀ s ∈ r.series.getD [], s.columns = p.columns.1
  rows : ∀ r ∈ response.results, ∀ s ∈ r.series.getD [], ∀ row ∈ s.values.getD [], row.length = p.columns.1.length

/-- The values of a column. -/
def Series.column (s : Series) (i : ℕ) : List String := (s.values.getD []).filterMap (·[i]?)

def allSeries (response : Response) : List Series := response.results.flatMap fun r => r.series.getD []

/-- What the reply tells. -/
def items (p : Prefix) (response : Response) : List String := (allSeries response).flatMap (·.column p.columns.2)

/-- Each of the values once, and nothing else. -/
def Complete (outcome : Except String (List (Option String))) (values : List String) : Prop :=
  ∃ vs : List String, outcome = .ok (vs.map some) ∧ vs.Nodup ∧ ∀ v, v ∈ vs ↔ v ∈ values

/-! ### What is read -/

/-- The first series of each result. -/
def firsts (response : Response) : List Series := response.results.flatMap fun r => (r.series.getD []).head?.toList

/-- The first result's series. -/
def ofFirst (response : Response) : List Series := (response.results.head?.bind Result.series).getD []

/-- The series that a parser reads. Of the first series of the results that are
about one measurement the last one is read. -/
def readSeries : Prefix → Response → List Series
  | .showDatabases, response | .showSeries, response | .showTagKeys, response => (ofFirst response).head?.toList
  | .showMeasurements, response => firsts response
  | .showTagValues, response => ofFirst response
  | .showFieldKeys, response =>
    (Props.lasts (((firsts response).filter (·.name ≠ prototypeKey)).map fun s => (s.name, s))).map Prod.snd

/-- There is something to read where the parser does not ask whether there is. -/
def Readable : Prefix → Response → Prop
  | .showDatabases, response => ofFirst response ≠ []
  | .showSeries, response | .showTagKeys, response => response.results ≠ []
  | .showMeasurements, response | .showFieldKeys, response => ∀ s ∈ firsts response, s.values ≠ none
  | .showTagValues, response =>
    response.results ≠ [] ∧ (∀ s ∈ ofFirst response, s.values ≠ none) ∧ ∀ s ∈ ofFirst response, ∀ k ∈ s.column 0, k ∉ Props.inherited

/-- A value is read only once; values of one tag key only count once. -/
def ReadOnce (p : Prefix) (response : Response) : Prop :=
  if p = .showTagValues then
    ∀ s ∈ readSeries p response, ∀ row ∈ s.values.getD [], ∀ s' ∈ readSeries p response, ∀ row' ∈ s'.values.getD [],
      row[1]? = row'[1]? → row[0]? = row'[0]?
  else ((readSeries p response).flatMap (·.column p.columns.2)).Nodup

/-- Everything in the reply can be read, is read, and is read once. -/
structure AllRead (p : Prefix) (response : Response) : Prop where
  readable : Readable p response
  all : ∀ v ∈ items p response, ∃ s ∈ readSeries p response, v ∈ s.column p.columns.2
  once : ReadOnce p response

/-! ### Each once -/

variable {out : List (Option String)} {values read : List String} {p : Prefix} {response : Response}

theorem eq_map_some : ∀ {out : List (Option String)}, (∀ o ∈ out, ∃ v, some v = o) → ∃ vs : List String, out = vs.map some
  | [], _ => ⟨[], rfl⟩
  | o :: out, h => by
    obtain ⟨v, rfl⟩ := h o List.mem_cons_self
    obtain ⟨vs, rfl⟩ := eq_map_some fun o ho => h o (List.mem_cons_of_mem _ ho)
    exact ⟨v :: vs, rfl⟩

theorem complete_ok_iff : Complete (.ok out) values ↔ out.Nodup ∧ ∀ o, o ∈ out ↔ ∃ v ∈ values, some v = o := by
  constructor
  · rintro ⟨vs, hout, hnodup, hmem⟩
    cases hout
    refine ⟨hnodup.map (Option.some_injective _), fun o => ?_⟩
    simp only [List.mem_map, hmem]
  · rintro ⟨hnodup, hmem⟩
    obtain ⟨vs, rfl⟩ := eq_map_some fun o ho => ((hmem o).mp ho).imp fun _ h => h.2
    refine ⟨vs, rfl, hnodup.of_map _, fun v => ?_⟩
    simpa using hmem (some v)

/-- Values of the reply are complete if and only if they are all of them and none is there twice. -/
theorem complete_iff_of_subset (hsub : ∀ o ∈ out, ∃ v ∈ values, some v = o) :
    Complete (.ok out) values ↔ (∀ v ∈ values, some v ∈ out) ∧ out.Nodup := by
  rw [complete_ok_iff, and_comm]
  refine and_congr_left fun _ => ⟨fun h v hv => (h _).mpr ⟨v, hv, rfl⟩, fun h o => ⟨hsub o, ?_⟩⟩
  rintro ⟨v, hv, rfl⟩
  exact h v hv

theorem complete_perm_iff (hout : out.Perm (read.map some)) (hsub : ∀ v ∈ read, v ∈ values) :
    Complete (.ok out) values ↔ (∀ v ∈ values, v ∈ read) ∧ read.Nodup := by
  have hmem : ∀ v, some v ∈ out ↔ v ∈ read := fun v => by simp [hout.mem_iff]
  rw [complete_iff_of_subset, hout.nodup_iff, List.nodup_map_iff (Option.some_injective _)]
  · simp only [hmem]
  · intro o ho
    obtain ⟨v, hv, rfl⟩ := List.mem_map.mp (hout.mem_iff.mp ho)
    exact ⟨v, hsub v hv, rfl⟩

/-! ### Well-formed replies -/

theorem failure_eq_none (hw : WellFormed p response) {r : Result} (hr : r ∈ response.results) : r.failure = none := by
  rw [Result.failure, hw.no_error r hr]
  rfl

theorem mem_allSeries {s : Series} : s ∈ allSeries response ↔ ∃ r ∈ response.results, s ∈ r.series.getD [] := List.mem_flatMap

theorem series_columns (hw : WellFormed p response) {s : Series} (hs : s ∈ allSeries response) : s.columns = p.columns.1 := by
  obtain ⟨r, hr, hmem⟩ := mem_allSeries.mp hs
  exact hw.columns r hr s hmem

theorem series_rows (hw : WellFormed p response) {s : Series} (hs : s ∈ allSeries response) {row : List String}
    (hrow : row ∈ s.values.getD []) : row.length = p.columns.1.length := by
  obtain ⟨r, hr, hmem⟩ := mem_allSeries.mp hs
  exact hw.rows r hr s hmem row hrow

theorem map_getElem? (hw : WellFormed p response) {s : Series} (hs : s ∈ allSeries response) {i : ℕ} (hi : i < p.columns.1.length) :
    (s.values.getD []).map (·[i]?) = (s.column i).map some := by
  have hrows : ∀ row ∈ s.values.getD [], ∃ v, some v = row[i]? := fun row hrow =>
    ⟨_, (List.getElem?_eq_getElem ((series_rows hw hs hrow).symm ▸ hi)).symm⟩
  rw [Series.column]
  generalize s.values.getD [] = rows at hrows
  induction rows with
  | nil => rfl
  | cons row rows ih =>
    obtain ⟨v, hv⟩ := hrows row List.mem_cons_self
    rw [List.map_cons, List.filterMap_cons, ← hv, ih fun r hr => hrows r (List.mem_cons_of_mem _ hr)]
    rfl

theorem column_lt (p : Prefix) : p.columns.2 < p.columns.1.length := by
  cases p <;> decide

theorem head?_mem_allSeries {s : Series} (h : s ∈ (ofFirst response).head?) : s ∈ allSeries response := by
  obtain ⟨_ | ⟨r, rs⟩⟩ := response
  · cases h
  · exact mem_allSeries.mpr ⟨r, List.mem_cons_self, List.mem_of_mem_head? h⟩

theorem firsts_subset {s : Series} (h : s ∈ firsts response) : s ∈ allSeries response := by
  obtain ⟨r, hr, hs⟩ := List.mem_flatMap.mp h
  exact mem_allSeries.mpr ⟨r, hr, List.mem_of_mem_head? (Option.mem_toList.mp hs)⟩

theorem ofFirst_subset {s : Series} (h : s ∈ ofFirst response) : s ∈ allSeries response := by
  obtain ⟨_ | ⟨r, rs⟩⟩ := response
  · cases h
  · exact mem_allSeries.mpr ⟨r, List.mem_cons_self, h⟩

/-- Only series of the reply are read. -/
theorem readSeries_subset {s : Series} (h : s ∈ readSeries p response) : s ∈ allSeries response := by
  cases p with
  | showDatabases => exact head?_mem_allSeries (Option.mem_toList.mp h)
  | showSeries => exact head?_mem_allSeries (Option.mem_toList.mp h)
  | showTagKeys => exact head?_mem_allSeries (Option.mem_toList.mp h)
  | showMeasurements => exact firsts_subset h
  | showTagValues => exact ofFirst_subset h
  | showFieldKeys =>
    obtain ⟨⟨k, s⟩, hlast, rfl⟩ := List.mem_map.mp h
    obtain ⟨s', hs', heq⟩ := List.mem_map.mp ((Props.lasts_sublist _).subset hlast)
    cases heq
    exact firsts_subset (List.mem_of_mem_filter hs')

/-! ### One result -/

/-- The values that are read, each as the row has it. -/
def readValues (p : Prefix) (response : Response) : List (Option String) :=
  (readSeries p response).flatMap fun s => (s.values.getD []).map (·[p.columns.2]?)

theorem readValues_eq (hw : WellFormed p response) :
    readValues p response = ((readSeries p response).flatMap (·.column p.columns.2)).map some := by
  rw [readValues, List.map_flatMap]
  exact List.flatMap_congr fun s hs => map_getElem? hw (readSeries_subset hs) (column_lt p)

theorem parseShowDatabases_eq (hw : WellFormed .showDatabases response) :
    (ofFirst response ≠ [] → parseShowDatabases response = .ok ⟨[], readValues .showDatabases response⟩) ∧
      (ofFirst response = [] → parseShowDatabases response = .error "TypeError") := by
  obtain ⟨_ | ⟨r, rs⟩⟩ := response
  · exact ⟨fun h => absurd rfl h, fun _ => rfl⟩
  · have hfail : r.failure = none := failure_eq_none hw List.mem_cons_self
    have hseries : r.series ≠ some [] := hw.series r List.mem_cons_self
    have hparse : parseShowDatabases ⟨r :: rs⟩ = match r.series with
        | none => .error "TypeError"
        | some series => do
          let series ← firstSeries series
          return ⟨[], (series.values.getD []).map (·[0]?)⟩ := by
      show (match r.failure with | some err => _ | none => _) = _
      rw [hfail]
      rfl
    have hof : ofFirst ⟨r :: rs⟩ = r.series.getD [] := rfl
    rw [hparse, readValues, readSeries, hof]
    cases hr : r.series with
    | none => exact ⟨fun h => absurd rfl h, fun _ => rfl⟩
    | some series =>
      cases series with
      | nil => exact absurd hr hseries
      | cons s ss =>
        refine ⟨fun _ => ?_, nofun⟩
        show Except.ok (Parsed.mk [] _) = .ok ⟨[], _⟩
        simp [Prefix.columns]

theorem parseShowSeries_eq (hw : WellFormed .showSeries response) :
    (response.results ≠ [] → parseShowSeries response = .ok ⟨[], readValues .showSeries response⟩) ∧
      (response.results = [] → parseShowSeries response = .error "TypeError") := by
  obtain ⟨_ | ⟨r, rs⟩⟩ := response
  · exact ⟨fun h => absurd rfl h, fun _ => rfl⟩
  · have hfail : r.failure = none := failure_eq_none hw List.mem_cons_self
    have hparse : parseShowSeries ⟨r :: rs⟩ = .ok ⟨[], (((r.series.getD []).head?.bind Series.values).getD []).map (·[0]?)⟩ := by
      show (match r.failure with | some err => _ | none => _) = _
      rw [hfail]
      rfl
    have hof : ofFirst ⟨r :: rs⟩ = r.series.getD [] := rfl
    refine ⟨fun _ => ?_, nofun⟩
    rw [hparse, readValues, readSeries, hof]
    cases (r.series.getD []).head? <;> simp [Prefix.columns]

theorem parseShowTagKeys_eq (hw : WellFormed .showTagKeys response) :
    (response.results ≠ [] → parseShowTagKeys response = .ok ⟨[], readValues .showTagKeys response⟩) ∧
      (response.results = [] → parseShowTagKeys response = .error "TypeError") := by
  obtain ⟨_ | ⟨r, rs⟩⟩ := response
  · exact ⟨fun h => absurd rfl h, fun _ => rfl⟩
  · have hfail : r.failure = none := failure_eq_none hw List.mem_cons_self
    have hseries : r.series ≠ some [] := hw.series r List.mem_cons_self
    have hparse : parseShowTagKeys ⟨r :: rs⟩ = match r.series with
        | none => .ok ⟨[], []⟩
        | some series => do
          let series ← firstSeries series
          return ⟨[], (series.values.getD []).map (·[0]?)⟩ := by
      show (match r.failure with | some err => _ | none => _) = _
      rw [hfail]
      rfl
    have hof : ofFirst ⟨r :: rs⟩ = r.series.getD [] := rfl
    refine ⟨fun _ => ?_, nofun⟩
    rw [hparse, readValues, readSeries, hof]
    cases hr : r.series with
    | none => rfl
    | some series =>
      cases series with
      | nil => exact absurd hr hseries
      | cons s ss =>
        show Except.ok (Parsed.mk [] _) = .ok ⟨[], _⟩
        simp [Prefix.columns]

/-! ### Every result -/

/-- A loop over the results is one over their first series. -/
theorem foldlM_firsts {β : Type} (f : β → Series → Except String β) (g : β → String → Except String β) :
    ∀ (results : List Result), (∀ r ∈ results, r.failure = none) → (∀ r ∈ results, r.series ≠ some []) → ∀ b : β,
    results.foldlM (fun b result => match result.failure with
      | some err => g b err
      | none => match result.series with
        | none => .ok b
        | some series => do
          let series ← firstSeries series
          f b series) b = (firsts ⟨results⟩).foldlM f b
  | [], _, _, _ => rfl
  | r :: results, hfail, hseries, b => by
    have ih := foldlM_firsts f g results (fun r hr => hfail r (List.mem_cons_of_mem _ hr))
      fun r hr => hseries r (List.mem_cons_of_mem _ hr)
    have hfirsts : firsts ⟨r :: results⟩ = (r.series.getD []).head?.toList ++ firsts ⟨results⟩ := List.flatMap_cons
    have hne := hseries r List.mem_cons_self
    rw [List.foldlM_cons, hfail r List.mem_cons_self, hfirsts, List.foldlM_append]
    cases hr : r.series with
    | none => exact ih b
    | some series =>
      cases series with
      | nil => exact absurd hr hne
      | cons s ss =>
        show (f b s >>= _) = ((f b s >>= pure) >>= _)
        rw [bind_pure]
        exact bind_congr ih

/-- Series that all have rows can be read one after the other. -/
theorem foldlM_rows {β : Type} (f : β → Series → List (List String) → β) : ∀ (ss : List Series) (b : β),
    ((∀ s ∈ ss, s.values ≠ none) → ss.foldlM (fun b s => do
        let rows ← s.rows
        return f b s rows) b = (Except.ok (ss.foldl (fun b s => f b s (s.values.getD [])) b) : Except String β)) ∧
      ((¬ ∀ s ∈ ss, s.values ≠ none) → ss.foldlM (fun b s => do
        let rows ← s.rows
        return f b s rows) b = (Except.error "TypeError" : Except String β))
  | [], _ => ⟨fun _ => rfl, fun h => absurd nofun h⟩
  | s :: ss, b => by
    rw [List.foldlM_cons, Series.rows]
    cases hs : s.values with
    | none => exact ⟨fun h => absurd hs (h s List.mem_cons_self), fun _ => rfl⟩
    | some rows =>
      obtain ⟨hok, herr⟩ := foldlM_rows f ss (f b s rows)
      constructor
      · intro h
        rw [List.foldl_cons, hs]
        exact hok fun s hs => h s (List.mem_cons_of_mem _ hs)
      · intro h
        refine herr fun hss => h fun s' hs' => ?_
        rcases List.mem_cons.mp hs' with rfl | hmem
        · rw [hs]
          nofun
        · exact hss s' hmem

/-! ### Measurements and fields -/

theorem foldl_measurements : ∀ (ss : List Series) (parsed : Parsed),
    ss.foldl (fun parsed s => { parsed with values := parsed.values ++ (s.values.getD []).map (cell s.columns "name") }) parsed =
      ⟨parsed.errors, parsed.values ++ ss.flatMap fun s => (s.values.getD []).map (cell s.columns "name")⟩
  | [], parsed => by rw [List.foldl_nil, List.flatMap_nil, List.append_nil]
  | s :: ss, parsed => by rw [List.foldl_cons, foldl_measurements ss, List.flatMap_cons, List.append_assoc]

theorem parseShowMeasurements_eq (hw : WellFormed .showMeasurements response) :
    ((∀ s ∈ firsts response, s.values ≠ none) →
      parseShowMeasurements response = .ok ⟨[], readValues .showMeasurements response⟩) ∧
    ((¬ ∀ s ∈ firsts response, s.values ≠ none) → parseShowMeasurements response = .error "TypeError") := by
  have hparse : parseShowMeasurements response = (firsts response).foldlM (fun parsed s => do
      let rows ← s.rows
      return { parsed with values := parsed.values ++ rows.map (cell s.columns "name") }) ⟨[], []⟩ :=
    foldlM_firsts _ (fun (parsed : Parsed) _ => .ok { parsed with errors := parsed.errors ++ ["[object Object]"] }) response.results
      (fun r hr => failure_eq_none hw hr) hw.series _
  obtain ⟨hok, herr⟩ := foldlM_rows (fun (parsed : Parsed) s rows => { parsed with values := parsed.values ++ rows.map (cell s.columns "name") })
    (firsts response) ⟨[], []⟩
  rw [hparse]
  refine ⟨fun h => ?_, herr⟩
  rw [hok h, foldl_measurements, List.nil_append, readValues, readSeries]
  refine congrArg (fun values => Except.ok (Parsed.mk [] values)) (List.flatMap_congr fun s hs => ?_)
  rw [series_columns hw (firsts_subset hs)]
  rfl

theorem foldl_fieldSets : ∀ (ss : List Series) (parsed : List String × Props (List (Option String))),
    ss.foldl (fun parsed s => if s.name = prototypeKey then parsed
        else (parsed.1, parsed.2.set s.name ((s.values.getD []).map (cell s.columns "fieldKey")))) parsed =
      (parsed.1, ((ss.filter (·.name ≠ prototypeKey)).map fun s =>
        (s.name, (s.values.getD []).map (cell s.columns "fieldKey"))).foldl (fun o e => o.set e.1 e.2) parsed.2)
  | [], _ => rfl
  | s :: ss, parsed => by
    rw [List.foldl_cons, List.filter_cons, foldl_fieldSets ss]
    by_cases h : s.name = prototypeKey
    · rw [if_pos h, if_neg (by simpa using h)]
    · rw [if_neg h, if_pos (by simpa using h), List.map_cons, List.foldl_cons]

theorem parseShowFieldKeys_eq (hw : WellFormed .showFieldKeys response) :
    ((∀ s ∈ firsts response, s.values ≠ none) →
      ∃ out, parseShowFieldKeys response = .ok ⟨[], out⟩ ∧ out.Perm (readValues .showFieldKeys response)) ∧
    ((¬ ∀ s ∈ firsts response, s.values ≠ none) → parseShowFieldKeys response = .error "TypeError") := by
  have hparse : parseFieldSets response = (firsts response).foldlM (fun parsed s => do
      let rows ← s.rows
      return if s.name = prototypeKey then parsed
        else (parsed.1, parsed.2.set s.name (rows.map (cell s.columns "fieldKey")))) ([], .empty) :=
    foldlM_firsts _ (fun parsed err => .ok (parsed.1 ++ [err], parsed.2)) response.results
      (fun r hr => failure_eq_none hw hr) hw.series _
  obtain ⟨hok, herr⟩ := foldlM_rows (fun (parsed : List String × Props (List (Option String))) s rows =>
      if s.name = prototypeKey then parsed else (parsed.1, parsed.2.set s.name (rows.map (cell s.columns "fieldKey"))))
    (firsts response) ([], .empty)
  rw [parseShowFieldKeys, hparse]
  refine ⟨fun h => ?_, fun h => by rw [herr h]; rfl⟩
  rw [hok h, foldl_fieldSets]
  refine ⟨_, rfl, ?_⟩
  -- of each measurement the fields of its last series stay
  have hpairs : (((firsts response).filter (·.name ≠ prototypeKey)).map fun s =>
      (s.name, (s.values.getD []).map (cell s.columns "fieldKey"))) =
      (((firsts response).filter (·.name ≠ prototypeKey)).map fun s => (s.name, s)).map fun e =>
        (e.1, (e.2.values.getD []).map (cell e.2.columns "fieldKey")) := by
    rw [List.map_map]
    rfl
  have hstay := (Props.values_perm Templates.arrayIndex (Props.ofList ((((firsts response).filter (·.name ≠ prototypeKey)).map fun s =>
      (s.name, (s.values.getD []).map (cell s.columns "fieldKey")))))).trans ((Props.ofList_entries_perm _).map Prod.snd)
  refine hstay.flatten.trans (.of_eq ?_)
  rw [hpairs, Props.lasts_map (fun s : Series => (s.values.getD []).map (cell s.columns "fieldKey")), readValues, readSeries, List.map_map, ← List.flatMap_def, List.flatMap_map]
  refine List.flatMap_congr fun e he => ?_
  have hs : e.2 ∈ allSeries response := readSeries_subset (p := .showFieldKeys) (List.mem_map.mpr ⟨e, he, rfl⟩)
  show (e.2.values.getD []).map (cell e.2.columns "fieldKey") = _
  rw [series_columns hw hs]
  rfl

/-! ### Tag values -/

/-- The tag keys of the first result, each with a value. -/
def tagPairs (ss : List Series) : List (String × Option String) :=
  ss.flatMap fun s => (s.values.getD []).map fun row => ((cell s.columns "key" row).getD "undefined", cell s.columns "value" row)

theorem pushTags_eq (columns : List String) : ∀ (rows : List (List String)) (tags : Props (List (Option String))),
    ((∀ row ∈ rows, (cell columns "key" row).getD "undefined" ∉ Props.inherited) → rows.foldlM (pushTag columns) tags =
      .ok ((rows.map fun row => ((cell columns "key" row).getD "undefined", cell columns "value" row)).foldl
        (fun o e => o.push e.1 e.2) tags)) ∧
    ((¬ ∀ row ∈ rows, (cell columns "key" row).getD "undefined" ∉ Props.inherited) → rows.foldlM (pushTag columns) tags = .error "TypeError")
  | [], _ => ⟨fun _ => rfl, fun h => absurd nofun h⟩
  | row :: rows, tags => by
    rw [List.foldlM_cons, pushTag]
    by_cases hrow : (cell columns "key" row).getD "undefined" ∈ Props.inherited
    · rw [if_pos hrow]
      exact ⟨fun h => absurd hrow (h row List.mem_cons_self), fun _ => rfl⟩
    · rw [if_neg hrow]
      obtain ⟨hok, herr⟩ := pushTags_eq columns rows (tags.push ((cell columns "key" row).getD "undefined") (cell columns "value" row))
      refine ⟨fun h => hok fun r hr => h r (List.mem_cons_of_mem _ hr), fun h => herr fun hrows => h fun r hr => ?_⟩
      rcases List.mem_cons.mp hr with rfl | hmem
      · exact hrow
      · exact hrows r hmem

/-- The series can all be read. -/
def TagsReadable (ss : List Series) : Prop :=
  ∀ s ∈ ss, s.values ≠ none ∧ ∀ row ∈ s.values.getD [], (cell s.columns "key" row).getD "undefined" ∉ Props.inherited

theorem foldlM_tags : ∀ (ss : List Series) (tags : Props (List (Option String))),
    (TagsReadable ss → ss.foldlM (fun tags s => do
        let rows ← s.rows
        rows.foldlM (pushTag s.columns) tags) tags = .ok ((tagPairs ss).foldl (fun o e => o.push e.1 e.2) tags)) ∧
    (¬ TagsReadable ss → ss.foldlM (fun tags s => do
        let rows ← s.rows
        rows.foldlM (pushTag s.columns) tags) tags = .error "TypeError")
  | [], _ => ⟨fun _ => rfl, fun h => absurd nofun h⟩
  | s :: ss, tags => by
    rw [List.foldlM_cons, Series.rows, tagPairs, List.flatMap_cons, List.foldl_append]
    cases hs : s.values with
    | none => exact ⟨fun h => absurd hs (h s List.mem_cons_self).1, fun _ => rfl⟩
    | some rows =>
      obtain ⟨hok, herr⟩ := pushTags_eq s.columns rows tags
      show (_ → (rows.foldlM (pushTag s.columns) tags >>= _) = _) ∧ (_ → (rows.foldlM (pushTag s.columns) tags >>= _) = _)
      by_cases hrows : ∀ row ∈ rows, (cell s.columns "key" row).getD "undefined" ∉ Props.inherited
      · obtain ⟨hok', herr'⟩ := foldlM_tags ss ((rows.map fun row =>
          ((cell s.columns "key" row).getD "undefined", cell s.columns "value" row)).foldl (fun o e => o.push e.1 e.2) tags)
        rw [hok hrows]
        refine ⟨fun h => hok' fun s' hs' => h s' (List.mem_cons_of_mem _ hs'), fun h => herr' fun hss => h fun s' hs' => ?_⟩
        rcases List.mem_cons.mp hs' with rfl | hmem
        · rw [hs]
          exact ⟨nofun, hrows⟩
        · exact hss s' hmem
      · rw [herr hrows]
        refine ⟨fun h => absurd ?_ hrows, fun _ => rfl⟩
        have := (h s List.mem_cons_self).2
        rwa [hs] at this

theorem mem_uniqSorted {v : List (Option String)} {o : Option String} : o ∈ uniqSorted v ↔ o ∈ v := by
  rw [uniqSorted, List.mem_insertionSort, mem_uniqBy_id]

theorem nodup_uniqSorted (v : List (Option String)) : (uniqSorted v).Nodup := by
  rw [uniqSorted, (List.perm_insertionSort _ _).nodup_iff]
  simpa using nodup_uniqBy (f := id) v

variable {pairs : List (String × Option String)}

/-- The tag values that are returned. -/
def tagValues (pairs : List (String × Option String)) : List (Option String) :=
  (((Props.group pairs).map uniqSorted).values Templates.arrayIndex).flatten

theorem get?_tags {k : String} {vs : List (Option String)} : ((Props.group pairs).map uniqSorted).get? k = some vs ↔
    k ∈ pairs.map Prod.fst ∧ uniqSorted ((pairs.filter (·.1 = k)).map Prod.snd) = vs := by
  rw [Props.get?_map, Props.get?_group]
  split_ifs with h <;> simp [h]

theorem mem_group {k : String} {o : Option String} : o ∈ uniqSorted ((pairs.filter (·.1 = k)).map Prod.snd) ↔ (k, o) ∈ pairs := by
  rw [mem_uniqSorted, List.mem_map]
  constructor
  · rintro ⟨⟨k', o⟩, hmem, rfl⟩
    obtain ⟨hpairs, hk⟩ := List.mem_filter.mp hmem
    exact of_decide_eq_true hk ▸ hpairs
  · exact fun h => ⟨(k, o), List.mem_filter.mpr ⟨h, decide_eq_true rfl⟩, rfl⟩

theorem mem_tagValues {o : Option String} : o ∈ tagValues pairs ↔ ∃ k, (k, o) ∈ pairs := by
  rw [tagValues, List.mem_flatten]
  constructor
  · rintro ⟨vs, hvs, ho⟩
    obtain ⟨k, hk⟩ := Props.mem_values.mp hvs
    obtain ⟨_, rfl⟩ := get?_tags.mp hk
    exact ⟨k, mem_group.mp ho⟩
  · rintro ⟨k, h⟩
    exact ⟨_, Props.mem_values.mpr ⟨k, get?_tags.mpr ⟨List.mem_map.mpr ⟨_, h, rfl⟩, rfl⟩⟩, mem_group.mpr h⟩

/-- No value is there twice if and only if each has one key. -/
theorem nodup_tagValues : (tagValues pairs).Nodup ↔ ∀ k k' o, (k, o) ∈ pairs → (k', o) ∈ pairs → k = k' := by
  have hsymm : Std.Symm (List.Disjoint (α := Option String)) := ⟨fun _ _ h => h.symm⟩
  rw [tagValues, List.nodup_flatten, Props.pairwise_values]
  constructor
  · rintro ⟨_, hdisjoint⟩ k k' o h h'
    by_contra hne
    exact hdisjoint k k' _ _ (get?_tags.mpr ⟨List.mem_map.mpr ⟨_, h, rfl⟩, rfl⟩)
      (get?_tags.mpr ⟨List.mem_map.mpr ⟨_, h', rfl⟩, rfl⟩) hne (mem_group.mpr h) (mem_group.mpr h')
  · intro h
    constructor
    · intro vs hvs
      obtain ⟨k, hk⟩ := Props.mem_values.mp hvs
      exact (get?_tags.mp hk).2 ▸ nodup_uniqSorted _
    · intro k k' vs vs' hk hk' hne o ho ho'
      obtain ⟨_, rfl⟩ := get?_tags.mp hk
      obtain ⟨_, rfl⟩ := get?_tags.mp hk'
      exact hne (h k k' o (mem_group.mp ho) (mem_group.mp ho'))

/-- A row of tag keys and tag values. -/
theorem tag_row (hw : WellFormed .showTagValues response) {s : Series} (hs : s ∈ allSeries response) {row : List String}
    (hrow : row ∈ s.values.getD []) : ∃ k v, row = [k, v] := by
  have hlength : row.length = 2 := series_rows hw hs hrow
  obtain ⟨k, v, h⟩ := List.length_eq_two.mp hlength
  exact ⟨k, v, h⟩

theorem mem_tagPairs (hw : WellFormed .showTagValues response) {k : String} {o : Option String} :
    (k, o) ∈ tagPairs (ofFirst response) ↔ ∃ s ∈ ofFirst response, ∃ v, [k, v] ∈ s.values.getD [] ∧ some v = o := by
  rw [tagPairs, List.mem_flatMap]
  refine exists_congr fun s => and_congr_right fun hs => ?_
  rw [List.mem_map, show s.columns = ["key", "value"] from series_columns hw (ofFirst_subset hs)]
  constructor
  · rintro ⟨row, hrow, heq⟩
    obtain ⟨k', v, rfl⟩ := tag_row hw (ofFirst_subset hs) hrow
    obtain ⟨rfl, rfl⟩ := Prod.mk.inj heq
    exact ⟨v, hrow, rfl⟩
  · rintro ⟨v, hrow, rfl⟩
    exact ⟨[k, v], hrow, rfl⟩

theorem parseShowTagValues_eq (hw : WellFormed .showTagValues response) :
    (Readable .showTagValues response → parseShowTagValues response = .ok ⟨[], tagValues (tagPairs (ofFirst response))⟩) ∧
      (¬ Readable .showTagValues response → parseShowTagValues response = .error "TypeError") := by
  obtain ⟨_ | ⟨r, rs⟩⟩ := response
  · exact ⟨fun h => absurd rfl h.1, fun _ => rfl⟩
  · have hfail : r.failure = none := failure_eq_none hw List.mem_cons_self
    have hparse : parseShowTagValues ⟨r :: rs⟩ = do
        let tags ← parseTags (ofFirst ⟨r :: rs⟩)
        return ⟨[], ((tags.map uniqSorted).values Templates.arrayIndex).flatten⟩ := by
      show (match r.failure with | some err => _ | none => _) = _
      rw [hfail]
      rfl
    have hreadable : Readable .showTagValues ⟨r :: rs⟩ ↔ TagsReadable (ofFirst ⟨r :: rs⟩) := by
      rw [Readable, and_iff_right (List.cons_ne_nil r rs), ← forall₂_and, TagsReadable]
      refine forall₂_congr fun s hs => and_congr_right fun _ => ?_
      rw [show s.columns = ["key", "value"] from series_columns hw (ofFirst_subset hs)]
      constructor
      · intro h row hrow
        obtain ⟨k, v, rfl⟩ := tag_row hw (ofFirst_subset hs) hrow
        exact h k (List.mem_filterMap.mpr ⟨_, hrow, rfl⟩)
      · intro h k hk
        obtain ⟨row, hrow, heq⟩ := List.mem_filterMap.mp hk
        obtain ⟨k', v, rfl⟩ := tag_row hw (ofFirst_subset hs) hrow
        cases heq
        exact h _ hrow
    obtain ⟨hok, herr⟩ := foldlM_tags (ofFirst ⟨r :: rs⟩) .empty
    rw [hreadable, hparse, parseTags]
    refine ⟨fun h => ?_, fun h => ?_⟩
    · rw [hok h]
      rfl
    · rw [herr h]
      rfl

theorem readOnce_tags_iff (hw : WellFormed .showTagValues response) :
    ReadOnce .showTagValues response ↔ (tagValues (tagPairs (ofFirst response))).Nodup := by
  rw [nodup_tagValues, ReadOnce, if_pos rfl]
  constructor
  · intro h k k' o hk hk'
    obtain ⟨s, hs, v, hrow, rfl⟩ := (mem_tagPairs hw).mp hk
    obtain ⟨s', hs', v', hrow', heq⟩ := (mem_tagPairs hw).mp hk'
    cases heq
    exact Option.some.inj (h s hs _ hrow s' hs' _ hrow' rfl)
  · intro h s hs row hrow s' hs' row' hrow' heq
    obtain ⟨k, v, rfl⟩ := tag_row hw (ofFirst_subset hs) hrow
    obtain ⟨k', v', rfl⟩ := tag_row hw (ofFirst_subset hs') hrow'
    obtain rfl : v = v' := Option.some.inj heq
    exact congrArg some (h k k' (some v) ((mem_tagPairs hw).mpr ⟨s, hs, v, hrow, rfl⟩) ((mem_tagPairs hw).mpr ⟨s', hs', v, hrow', rfl⟩))

/-! ### Meta queries -/

variable {upperTrimmed : String → String} {metaQuery : String}

theorem parseMetaQuery_ok (hp : getMetaQueryPrefix upperTrimmed metaQuery = some p) (h : p.parse response = .ok ⟨[], out⟩) :
    parseMetaQuery upperTrimmed metaQuery response = .ok out := by
  rw [parseMetaQuery, hp]
  dsimp only
  rw [h]
  rfl

theorem parseMetaQuery_error (hp : getMetaQueryPrefix upperTrimmed metaQuery = some p) {e : String} (h : p.parse response = .error e) :
    ¬ Complete (parseMetaQuery upperTrimmed metaQuery response) values := by
  rintro ⟨vs, hvs, _⟩
  rw [parseMetaQuery, hp] at hvs
  dsimp only at hvs
  rw [h] at hvs
  cases hvs

theorem mem_items {v : String} : v ∈ items p response ↔ ∃ s ∈ allSeries response, v ∈ s.column p.columns.2 := List.mem_flatMap

/-- Values read from some series, each as often as it stands there. -/
theorem complete_read_iff (hw : WellFormed p response) (hp : p ≠ .showTagValues) (hout : out.Perm (readValues p response)) :
    Complete (.ok out) (items p response) ↔
      (∀ v ∈ items p response, ∃ s ∈ readSeries p response, v ∈ s.column p.columns.2) ∧ ReadOnce p response := by
  rw [readValues_eq hw] at hout
  have hsub : ∀ v ∈ (readSeries p response).flatMap (·.column p.columns.2), v ∈ items p response := by
    intro v hv
    obtain ⟨s, hs, hmem⟩ := List.mem_flatMap.mp hv
    exact mem_items.mpr ⟨s, readSeries_subset hs, hmem⟩
  rw [complete_perm_iff hout hsub, ReadOnce, if_neg hp]
  simp only [List.mem_flatMap]

theorem complete_tags_iff (hw : WellFormed .showTagValues response) :
    Complete (.ok (tagValues (tagPairs (ofFirst response)))) (items .showTagValues response) ↔
      (∀ v ∈ items .showTagValues response, ∃ s ∈ readSeries .showTagValues response, v ∈ s.column 1) ∧
        ReadOnce .showTagValues response := by
  have hmem : ∀ o, o ∈ tagValues (tagPairs (ofFirst response)) ↔ ∃ s ∈ ofFirst response, ∃ v ∈ s.column 1, some v = o := by
    intro o
    rw [mem_tagValues]
    constructor
    · rintro ⟨k, hk⟩
      obtain ⟨s, hs, v, hrow, rfl⟩ := (mem_tagPairs hw).mp hk
      exact ⟨s, hs, v, List.mem_filterMap.mpr ⟨_, hrow, rfl⟩, rfl⟩
    · rintro ⟨s, hs, v, hv, rfl⟩
      obtain ⟨row, hrow, heq⟩ := List.mem_filterMap.mp hv
      obtain ⟨k, v', rfl⟩ := tag_row hw (ofFirst_subset hs) hrow
      cases heq
      exact ⟨k, (mem_tagPairs hw).mpr ⟨s, hs, _, hrow, rfl⟩⟩
  rw [complete_iff_of_subset, readOnce_tags_iff hw]
  · refine and_congr_left fun _ => forall₂_congr fun v _ => ?_
    rw [hmem]
    simp [readSeries]
  · intro o ho
    obtain ⟨s, hs, v, hv, rfl⟩ := (hmem o).mp ho
    exact ⟨v, mem_items.mpr ⟨s, ofFirst_subset hs, hv⟩, rfl⟩

/-- A parser that reads what can be read, or fails. -/
theorem allRead_iff (hp : getMetaQueryPrefix upperTrimmed metaQuery = some p)
    (hok : Readable p response → ∃ out, p.parse response = .ok ⟨[], out⟩ ∧ (Complete (.ok out) (items p response) ↔
      (∀ v ∈ items p response, ∃ s ∈ readSeries p response, v ∈ s.column p.columns.2) ∧ ReadOnce p response))
    (herr : ¬ Readable p response → ∃ e, p.parse response = .error e) :
    Complete (parseMetaQuery upperTrimmed metaQuery response) (items p response) ↔ AllRead p response := by
  by_cases h : Readable p response
  · obtain ⟨out, hout, hcomplete⟩ := hok h
    rw [parseMetaQuery_ok hp hout, hcomplete]
    exact ⟨fun ⟨hall, honce⟩ => ⟨h, hall, honce⟩, fun hread => ⟨hread.all, hread.once⟩⟩
  · obtain ⟨e, he⟩ := herr h
    exact iff_of_false (parseMetaQuery_error hp he) fun hread => h hread.readable

/-- A meta query gives every value of a reply once and nothing else if and only
if everything in the reply can be read, is read, and is read once. -/
theorem meta_query_values_iff (upperTrimmed : String → String) (metaQuery : String) (response : Response) (p : Prefix)
    (hp : getMetaQueryPrefix upperTrimmed metaQuery = some p) (hw : WellFormed p response) :
    Complete (parseMetaQuery upperTrimmed metaQuery response) (items p response) ↔ AllRead p response := by
  cases p with
  | showDatabases =>
    obtain ⟨hok, herr⟩ := parseShowDatabases_eq hw
    exact allRead_iff hp (fun h => ⟨_, hok h, complete_read_iff hw (by decide) (.refl _)⟩) fun h => ⟨_, herr (not_not.mp h)⟩
  | showSeries =>
    obtain ⟨hok, herr⟩ := parseShowSeries_eq hw
    exact allRead_iff hp (fun h => ⟨_, hok h, complete_read_iff hw (by decide) (.refl _)⟩) fun h => ⟨_, herr (not_not.mp h)⟩
  | showTagKeys =>
    obtain ⟨hok, herr⟩ := parseShowTagKeys_eq hw
    exact allRead_iff hp (fun h => ⟨_, hok h, complete_read_iff hw (by decide) (.refl _)⟩) fun h => ⟨_, herr (not_not.mp h)⟩
  | showMeasurements =>
    obtain ⟨hok, herr⟩ := parseShowMeasurements_eq hw
    exact allRead_iff hp (fun h => ⟨_, hok h, complete_read_iff hw (by decide) (.refl _)⟩) fun h => ⟨_, herr h⟩
  | showFieldKeys =>
    obtain ⟨hok, herr⟩ := parseShowFieldKeys_eq hw
    refine allRead_iff hp (fun h => ?_) fun h => ⟨_, herr h⟩
    obtain ⟨out, hout, hperm⟩ := hok h
    exact ⟨out, hout, complete_read_iff hw (by decide) hperm⟩
  | showTagValues =>
    obtain ⟨hok, herr⟩ := parseShowTagValues_eq hw
    exact allRead_iff hp (fun h => ⟨_, hok h, complete_tags_iff hw⟩) fun h => ⟨_, herr h⟩

theorem meta_query_values_tag_keys :
    Complete (parseMetaQuery id "SHOW TAG KEYS FROM cpu" ⟨[⟨none, some [⟨"cpu", ["tagKey"], some [["cpu"], ["host"]]⟩]⟩]⟩)
      (items .showTagKeys ⟨[⟨none, some [⟨"cpu", ["tagKey"], some [["cpu"], ["host"]]⟩]⟩]⟩) ↔
    AllRead .showTagKeys ⟨[⟨none, some [⟨"cpu", ["tagKey"], some [["cpu"], ["host"]]⟩]⟩]⟩ :=
  meta_query_values_iff id _ _ _ (by decide +kernel) ⟨by decide, by decide, by decide, by decide⟩

/-- The fields of two measurements, of which only those of the first are read. -/
def twoMeasurements : Response where
  results := [⟨none, some [⟨"cpu", ["fieldKey", "fieldType"], some [["usage_idle", "float"]]⟩,
    ⟨"mem", ["fieldKey", "fieldType"], some [["used", "integer"]]⟩]⟩]

theorem field_keys_lost : ¬ ∀ (upperTrimmed : String → String) (metaQuery : String) (response : Response) (p : Prefix),
    getMetaQueryPrefix upperTrimmed metaQuery = some p → WellFormed p response →
    Complete (parseMetaQuery upperTrimmed metaQuery response) (items p response) := by
  intro h
  obtain ⟨vs, hvs, _, hmem⟩ := h id "SHOW FIELD KEYS ON telegraf" twoMeasurements .showFieldKeys (by decide +kernel)
    ⟨by decide, by decide, by decide, by decide⟩
  have hread : parseMetaQuery id "SHOW FIELD KEYS ON telegraf" twoMeasurements = .ok [some "usage_idle"] := by decide +kernel
  rw [hread, Except.ok.injEq] at hvs
  have hused : some "used" ∈ vs.map some := List.mem_map.mpr ⟨_, (hmem "used").mpr (by decide), rfl⟩
  rw [← hvs] at hused
  exact absurd hused (by decide)

end MetaQueries
end Chronograf
