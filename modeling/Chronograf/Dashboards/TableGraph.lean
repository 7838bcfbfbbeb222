/-
# The columns of a table

`filterTableColumns`, `orderTableColumns`, `sortTableData`, `transformTableData`
and `computeFieldOptions` of `dashboards/utils/tableGraph.ts`, and
`applyChangesToTableData` of `logs/utils/table.ts`. Columns are hidden by their
label, and put in order by looking for the label of each option. A column that
no option finds is left without values, and of columns with one label the first
comes in the place of each.

Key definitions: `transformTableData`, `applyChangesToTableData`, `Restricted`, `Listable`.
Key theorems: `keep_getElem?`, `arranged_restricted_iff`, `table_columns_iff`, `computeFieldOptions_listable`.
-/
import Mathlib.Data.List.Basic
import Mathlib.Data.List.Range
import Mathlib.Data.List.Nodup
import Mathlib.Data.List.Perm.Subperm

namespace Chronograf
namespace TableGraph

/-- A value of a table; labels are texts. -/
inductive Value (ν : Type)
  | string (s : String)
  | number (n : ν)
  | null
  deriving DecidableEq

structure FieldOption where
  internalName : String
  displayName : String
  visible : Bool
  deriving DecidableEq

structure TableSort where
  field : String
  direction : String

variable {ν : Type} [DecidableEq ν]

def FieldOption.label (o : FieldOption) : Value ν := .string o.internalName

/-! ### Hiding columns -/

/-- The first option with this label tells; a column without an option is visible. -/
def visible (fieldOptions : List FieldOption) (col : Value ν) : Bool :=
  match fieldOptions.find? fun field => field.label = col with
  | some foundField => foundField.visible
  | none => true

def keep {α : Type} (visibility : List Bool) (row : List α) : List α :=
  (row.zipIdx.filter fun e => visibility.getD e.2 false).map Prod.fst

/-- Without a header it is a `TypeError`. -/
def filterTableColumns (data : List (List (Value ν))) (fieldOptions : List FieldOption) : Option (List (List (Value ν))) :=
  match data with
  | [] => none
  | header :: _ =>
    let filteredData := data.map (keep (header.map (visible fieldOptions)))
    if keep (header.map (visible fieldOptions)) header = [] then some [[]] else some filteredData

/-! ### Ordering columns -/

/-- Where the options find their labels. -/
def sortOrder (header : List (Value ν)) (fieldOptions : List FieldOption) : List ℕ :=
  fieldOptions.filterMap fun fieldOption => header.idxOf? fieldOption.label

/-- Each place gets the value at the place in the order; a value that is not there is `undefined`. -/
def orderRow {α : Type} (order : List ℕ) (row : List α) : List (Option α) :=
  (List.range row.length).map fun j => order[j]?.bind (row[·]?)

def orderTableColumns (data : List (List (Value ν))) (fieldOptions : List FieldOption) : Option (List (List (Option (Value ν)))) :=
  match data with
  | [] => none
  | header :: _ =>
    if header = [] then some [[]] else some (data.map (orderRow (sortOrder header fieldOptions)))

/-! ### Tables -/

/-- Rows ordered by a column, in a direction: `_.orderBy`. -/
abbrev OrderBy (ν : Type) := List (List (Value ν)) → Option ℕ → String → List (List (Value ν))

def sortedRows (orderBy : OrderBy ν) (header : List (Value ν)) (rows : List (List (Value ν))) (sort : TableSort) : List (List (Value ν)) :=
  orderBy rows (header.idxOf? (.string sort.field)) sort.direction

def sortTableData (orderBy : OrderBy ν) (data : List (List (Value ν))) (sort : TableSort) :
    Option (List (List (Value ν)) × List (Option (Value ν))) :=
  match data with
  | [] => none
  | header :: dataValues =>
    let sortedData := header :: sortedRows orderBy header dataValues sort
    some (sortedData, sortedData.map fun r => r[0]?)

/-- With a vertical time axis. -/
def transformTableData (orderBy : OrderBy ν) (data : List (List (Value ν))) (sort : TableSort) (fieldOptions : List FieldOption) :
    Option (List (List (Option (Value ν))) × List (Option (Value ν))) := do
  let (sortedData, sortedTimeVals) ← sortTableData orderBy data sort
  let filteredData ← filterTableColumns sortedData fieldOptions
  let orderedData ← orderTableColumns filteredData fieldOptions
  return (orderedData, sortedTimeVals)

/-- The columns and the values. -/
def applyChangesToTableData (columns : List (Value ν)) (values : List (List (Value ν))) (tableColumns : List FieldOption) :
    Option (List (Option (Value ν)) × List (List (Option (Value ν)))) := do
  let filteredData ← filterTableColumns (columns :: values) tableColumns
  let orderedData ← orderTableColumns filteredData tableColumns
  return (orderedData.headD [], orderedData.drop 1)

def DEFAULT_TIME_FIELD : FieldOption := ⟨"time", "", true⟩

/-- Options that are there and still wanted, then new ones. -/
def computeFieldOptions (existingFieldOptions : List FieldOption) (sortedLabels : List String) : List FieldOption :=
  let timeField := (existingFieldOptions.find? fun f => f.internalName = "time").getD DEFAULT_TIME_FIELD
  let astNames := timeField :: sortedLabels.map fun label => ⟨label, "", true⟩
  let intersection := existingFieldOptions.filter fun f => (astNames.find? fun a => a.internalName = f.internalName).isSome
  let newFields := astNames.filter fun a => !(existingFieldOptions.find? fun f => f.internalName = a.internalName).isSome
  intersection ++ newFields

/-! ### What a table should be -/

/-- The place of the first option with the label, behind all of them for none. -/
def rank (fieldOptions : List FieldOption) (label : Option (Value ν)) : ℕ :=
  (fieldOptions.map fun o => some (o.label : Value ν)).idxOf label

/-- The header and the rows, restricted to the visible columns in the order of the options. -/
def Restricted (fieldOptions : List FieldOption) (header : List (Value ν)) (rows : List (List (Value ν)))
    (out : List (List (Option (Value ν)))) : Prop :=
  ∃ cols : List ℕ, cols.Nodup ∧ (∀ j, j ∈ cols ↔ ∃ v ∈ header[j]?, visible fieldOptions v) ∧
    (cols.Pairwise fun i j => rank fieldOptions header[i]? ≤ rank fieldOptions header[j]?) ∧
    out = (header :: rows).map fun row => cols.map (row[·]?)

/-- The columns of the options that are not hidden. -/
def shown (fieldOptions : List FieldOption) (header : List (Value ν)) : List (Value ν) := header.filter (visible fieldOptions)

/-- As many options as there are visible columns, the first ones that name any. -/
def listed (fieldOptions : List FieldOption) (header : List (Value ν)) : List (Value ν) :=
  ((fieldOptions.map FieldOption.label).filter (· ∈ shown fieldOptions header)).take (shown fieldOptions header).length

/-- The places of the visible columns. -/
def places (visibility : List Bool) : List ℕ := (List.range visibility.length).filter fun j => visibility.getD j false

/-- The first of these options name each visible label as often as the header has it, all at
once, and columns with one label hold the same values. Where no column is visible there are no rows. -/
def Listable (fieldOptions : List FieldOption) (header : List (Value ν)) (rows : List (List (Value ν))) : Prop :=
  if shown fieldOptions header = [] then rows = []
  else (listed fieldOptions header).Perm (shown fieldOptions header) ∧
    ((listed fieldOptions header).Pairwise fun v w => rank fieldOptions (some v) ≤ rank fieldOptions (some w)) ∧
    ∀ row ∈ rows, ∀ i ∈ places (header.map (visible fieldOptions)), ∀ j ∈ places (header.map (visible fieldOptions)),
      header[i]? = header[j]? → row[i]? = row[j]?

/-! ### Places that are kept -/

variable {α : Type} {visibility : List Bool} {fieldOptions : List FieldOption} {header : List (Value ν)} {rows : List (List (Value ν))}

theorem map_some_keep {row : List α} (h : row.length = visibility.length) :
    (keep visibility row).map some = (places visibility).map (row[·]?) := by
  have hentry : ∀ e ∈ row.zipIdx.filter fun e => visibility.getD e.2 false, some e.1 = row[e.2]? := fun e he =>
    (List.mem_zipIdx_iff_getElem?.mp (List.mem_of_mem_filter he)).symm
  calc (keep visibility row).map some
    _ = (row.zipIdx.filter fun e => visibility.getD e.2 false).map fun e => row[e.2]? := by
      rw [keep, List.map_map]
      exact List.map_congr_left hentry
    _ = ((row.zipIdx.map Prod.snd).filter fun j => visibility.getD j false).map (row[·]?) := by
      rw [List.filter_map, List.map_map]
      rfl
    _ = (places visibility).map (row[·]?) := by
      rw [List.zipIdx_map_snd, List.range'_eq_map_range, h, places]
      simp

theorem keep_getElem? {row : List α} (h : row.length = visibility.length) (i : ℕ) :
    (keep visibility row)[i]? = (places visibility)[i]?.bind (row[·]?) := by
  have hi := congrArg (·[i]?) (map_some_keep h)
  simp only [List.getElem?_map] at hi
  cases hkeep : (keep visibility row)[i]? with
  | none =>
    rw [hkeep] at hi
    rw [Option.map_eq_none_iff.mp hi.symm]
    rfl
  | some v =>
    rw [hkeep] at hi
    obtain ⟨k, hk, hrow⟩ := Option.map_eq_some_iff.mp hi.symm
    rw [hk]
    exact hrow.symm

theorem length_keep {row : List α} (h : row.length = visibility.length) : (keep visibility row).length = (places visibility).length := by
  have hlength := congrArg List.length (map_some_keep h)
  rwa [List.length_map, List.length_map] at hlength

theorem nodup_places : (places visibility).Nodup := List.nodup_range.filter _

theorem mem_places {header : List (Value ν)} {j : ℕ} : j ∈ places (header.map (visible fieldOptions)) ↔
    ∃ v ∈ header[j]?, visible fieldOptions v := by
  rw [places, List.mem_filter, List.mem_range, List.length_map]
  cases hj : header[j]? with
  | none => simp [List.getElem?_eq_none_iff.mp hj]
  | some v =>
    obtain ⟨hlt, rfl⟩ := List.getElem?_eq_some_iff.mp hj
    simp [hlt]

theorem keep_header (fieldOptions : List FieldOption) (header : List (Value ν)) :
    keep (header.map (visible fieldOptions)) header = shown fieldOptions header := by
  have hentry : ∀ e ∈ header.zipIdx, ((header.map (visible fieldOptions)).getD e.2 false) = visible fieldOptions e.1 := fun e he => by
    rw [List.getD_eq_getElem?_getD, List.getElem?_map, List.mem_zipIdx_iff_getElem?.mp he]
    rfl
  rw [keep, shown, List.filter_congr hentry]
  calc (header.zipIdx.filter fun e => visible fieldOptions e.1).map Prod.fst
    _ = (header.zipIdx.map Prod.fst).filter (visible fieldOptions) := by
      rw [List.filter_map]
      rfl
    _ = header.filter (visible fieldOptions) := by rw [List.zipIdx_map_fst]

/-! ### The order of the options -/

/-- The options that name a label, and where. -/
theorem sortOrder_eq (labels : List (Value ν)) (fieldOptions : List FieldOption) :
    sortOrder labels fieldOptions = ((fieldOptions.map FieldOption.label).filter (· ∈ labels)).map fun v => labels.idxOf v := by
  induction fieldOptions with
  | nil => rfl
  | cons o os ih =>
    rw [sortOrder] at ih ⊢
    rw [List.filterMap_cons, List.map_cons, List.filter_cons, ih]
    by_cases h : (o.label : Value ν) ∈ labels
    · obtain ⟨k, hk⟩ : ∃ k, labels.idxOf? (o.label : Value ν) = some k :=
        Option.ne_none_iff_exists'.mp fun hnone => List.idxOf?_eq_none_iff.mp hnone h
      rw [hk, if_pos (decide_eq_true h), List.map_cons, List.idxOf_eq_getD_idxOf?, hk]
      rfl
    · rw [List.idxOf?_eq_none_iff.mpr h, if_neg (by simpa using h)]

/-- Elements that are taken before any comes again stand in the order of their first places. -/
theorem pairwise_idxOf_take_filter {β : Type} [DecidableEq β] (p : β → Bool) : ∀ (l : List β) (n : ℕ), ((l.filter p).take n).Nodup →
    ((l.filter p).take n).Pairwise fun a b => l.idxOf a ≤ l.idxOf b
  | [], _, _ => by simp
  | x :: l, n, h => by
    rw [List.filter_cons] at h ⊢
    have hrest : ∀ m, ((l.filter p).take m).Nodup → x ∉ (l.filter p).take m →
        ((l.filter p).take m).Pairwise fun a b => (x :: l).idxOf a ≤ (x :: l).idxOf b := by
      intro m hm hx
      refine (pairwise_idxOf_take_filter p l m hm).imp_of_mem fun {a b} ha hb hle => ?_
      have hax : x ≠ a := fun heq => hx (heq ▸ ha)
      have hbx : x ≠ b := fun heq => hx (heq ▸ hb)
      rw [List.idxOf_cons_ne _ hax, List.idxOf_cons_ne _ hbx]
      exact Nat.succ_le_succ hle
    split_ifs at h ⊢ with hx
    · cases n with
      | zero => simp
      | succ n =>
        rw [List.take_succ_cons] at h ⊢
        obtain ⟨hnot, hnodup⟩ := List.nodup_cons.mp h
        refine List.pairwise_cons.mpr ⟨fun b _ => ?_, hrest n hnodup hnot⟩
        rw [List.idxOf_cons_self]
        exact Nat.zero_le _
    · exact hrest n h fun hmem => hx (List.mem_filter.mp (List.mem_of_mem_take hmem)).2

/-! ### Rows -/

theorem length_shown (fieldOptions : List FieldOption) (header : List (Value ν)) :
    (shown fieldOptions header).length = (places (header.map (visible fieldOptions))).length := by
  rw [← keep_header, length_keep (List.length_map _).symm]

theorem map_places (fieldOptions : List FieldOption) (header : List (Value ν)) :
    (places (header.map (visible fieldOptions))).map (header[·]?) = (shown fieldOptions header).map some := by
  rw [← keep_header, map_some_keep (List.length_map _).symm]

theorem mem_shown_of_listed {v : Value ν} (hv : v ∈ listed fieldOptions header) : v ∈ shown fieldOptions header :=
  of_decide_eq_true (List.mem_filter.mp (List.mem_of_mem_take hv)).2

/-- The first visible column with a label. -/
def column (fieldOptions : List FieldOption) (header : List (Value ν)) (v : Value ν) : ℕ :=
  (places (header.map (visible fieldOptions))).getD ((shown fieldOptions header).idxOf v) 0

theorem places_idxOf {v : Value ν} (hv : v ∈ shown fieldOptions header) :
    (places (header.map (visible fieldOptions)))[(shown fieldOptions header).idxOf v]? = some (column fieldOptions header v) := by
  have hlt : (shown fieldOptions header).idxOf v < (places (header.map (visible fieldOptions))).length := by
    rw [← length_shown]
    exact List.idxOf_lt_length_of_mem hv
  rw [column, List.getD_eq_getElem?_getD, List.getElem?_eq_getElem hlt]
  rfl

theorem column_mem {v : Value ν} (hv : v ∈ shown fieldOptions header) :
    column fieldOptions header v ∈ places (header.map (visible fieldOptions)) :=
  List.mem_of_getElem? (places_idxOf hv)

theorem header_column {v : Value ν} (hv : v ∈ shown fieldOptions header) :
    header[column fieldOptions header v]? = some v := by
  have hplace := congrArg (·[(shown fieldOptions header).idxOf v]?) (map_places fieldOptions header)
  simp only [List.getElem?_map, places_idxOf hv, List.getElem?_idxOf hv, Option.map_some] at hplace
  exact Option.some_inj.mp hplace

/-- A row after both passes: at each place the value in the column of the option for it. -/
theorem orderRow_keep {row : List α} (h : row.length = header.length) :
    orderRow (sortOrder (shown fieldOptions header) fieldOptions) (keep (header.map (visible fieldOptions)) row) =
      (List.range (shown fieldOptions header).length).map fun j =>
        (listed fieldOptions header)[j]?.bind fun v => row[column fieldOptions header v]? := by
  have hlength : row.length = (header.map (visible fieldOptions)).length := h.trans (List.length_map _).symm
  rw [orderRow, length_keep hlength, ← length_shown]
  refine List.map_congr_left fun j hj => ?_
  rw [sortOrder_eq, List.getElem?_map, ← List.getElem?_take_of_lt (List.mem_range.mp hj)]
  change ((listed fieldOptions header)[j]?.map _).bind _ = _
  cases hv : (listed fieldOptions header)[j]? with
  | none => rfl
  | some v =>
    change (keep _ row)[_]? = row[_]?
    rw [keep_getElem? hlength, places_idxOf (mem_shown_of_listed (List.mem_of_getElem? hv))]
    rfl

theorem map_range_getElem? {β γ : Type} (g : β → Option γ) (l : List β) :
    ((List.range l.length).map fun j => l[j]?.bind g) = l.map g := by
  refine List.ext_getElem (by simp) fun i hi _ => ?_
  have hlt : i < l.length := by simpa using hi
  simp [List.getElem?_eq_getElem hlt]

theorem filterTableColumns_eq (h : shown fieldOptions header ≠ []) : filterTableColumns (header :: rows) fieldOptions =
    some ((header :: rows).map (keep (header.map (visible fieldOptions)))) := by
  rw [filterTableColumns, keep_header, if_neg h]

theorem orderTableColumns_eq (h : shown fieldOptions header ≠ []) :
    orderTableColumns ((header :: rows).map (keep (header.map (visible fieldOptions)))) fieldOptions =
      some ((header :: rows).map fun row =>
        orderRow (sortOrder (shown fieldOptions header) fieldOptions) (keep (header.map (visible fieldOptions)) row)) := by
  rw [List.map_cons, orderTableColumns, keep_header, if_neg h, ← keep_header, ← List.map_cons, List.map_map]
  rfl

/-- Both passes over a table. -/
def arranged (fieldOptions : List FieldOption) (header : List (Value ν)) (rows : List (List (Value ν))) :
    Option (List (List (Option (Value ν)))) := do
  let filteredData ← filterTableColumns (header :: rows) fieldOptions
  orderTableColumns filteredData fieldOptions

theorem arranged_eq (h : shown fieldOptions header ≠ []) (hrows : ∀ row ∈ rows, row.length = header.length) :
    arranged fieldOptions header rows = some ((header :: rows).map fun row =>
      (List.range (shown fieldOptions header).length).map fun j =>
        (listed fieldOptions header)[j]?.bind fun v => row[column fieldOptions header v]?) := by
  rw [arranged, filterTableColumns_eq h]
  refine (orderTableColumns_eq h).trans (congrArg some (List.map_congr_left fun row hrow => orderRow_keep ?_))
  rcases List.mem_cons.mp hrow with rfl | hrow
  · rfl
  · exact hrows row hrow

theorem arranged_nil (h : shown fieldOptions header = []) : arranged fieldOptions header rows = some [[]] := by
  rw [arranged, filterTableColumns, keep_header, if_pos h]
  rfl

theorem arranged_ne_nil (hrows : ∀ row ∈ rows, row.length = header.length) {out : List (List (Option (Value ν)))}
    (hout : arranged fieldOptions header rows = some out) : out ≠ [] := by
  by_cases h : shown fieldOptions header = []
  · rw [arranged_nil h, Option.some_inj] at hout
    exact hout ▸ List.cons_ne_nil _ _
  · rw [arranged_eq h hrows, Option.some_inj] at hout
    exact hout ▸ List.cons_ne_nil _ _

/-! ### When the columns are right -/

/-- Columns with one label hold the same values: those of the first of them. -/
theorem agree_iff {row : List (Value ν)} :
    (∀ i ∈ places (header.map (visible fieldOptions)), ∀ j ∈ places (header.map (visible fieldOptions)),
      header[i]? = header[j]? → row[i]? = row[j]?) ↔
    ∀ i ∈ places (header.map (visible fieldOptions)), row[i]? = header[i]?.bind fun v => row[column fieldOptions header v]? := by
  constructor
  · intro h i hi
    obtain ⟨v, hv, hvisible⟩ := mem_places.mp hi
    have hshown : v ∈ shown fieldOptions header := List.mem_filter.mpr ⟨List.mem_of_getElem? hv, hvisible⟩
    rw [hv]
    exact h i hi _ (column_mem hshown) (hv.trans (header_column hshown).symm)
  · intro h i hi j hj heq
    rw [h i hi, h j hj, heq]

theorem perm_places {cols : List ℕ} (hnodup : cols.Nodup) (hmem : ∀ j, j ∈ cols ↔ ∃ v ∈ header[j]?, visible fieldOptions v) :
    cols.Perm (places (header.map (visible fieldOptions))) :=
  (List.perm_ext_iff_of_nodup hnodup nodup_places).mpr fun j => (hmem j).trans mem_places.symm

/-- Rows are the columns where the header is: as far as columns with one label agree. -/
theorem map_cols {cols : List ℕ} (hheader : cols.map (header[·]?) = (listed fieldOptions header).map some) (row : List (Value ν)) :
    ((listed fieldOptions header).map fun v => row[column fieldOptions header v]?) =
      cols.map fun i => header[i]?.bind fun v => row[column fieldOptions header v]? := by
  have hbind := congrArg (List.map fun label => label.bind fun v => row[column fieldOptions header v]?) hheader
  rw [List.map_map, List.map_map] at hbind
  exact hbind.symm

theorem pairwise_cols {cols : List ℕ} (hheader : cols.map (header[·]?) = (listed fieldOptions header).map some) :
    (cols.Pairwise fun i j => rank fieldOptions header[i]? ≤ rank fieldOptions header[j]?) ↔
      (listed fieldOptions header).Pairwise fun v w => rank fieldOptions (some v) ≤ rank fieldOptions (some w) := by
  have hcols := List.pairwise_map (l := cols) (f := (header[·]?)) (R := fun a b => rank fieldOptions a ≤ rank fieldOptions b)
  rw [← hcols, hheader, List.pairwise_map]

/-- Where each place has an option, rows are the columns of these. -/
theorem length_listed {cols : List ℕ} (hcols : cols.Perm (places (header.map (visible fieldOptions))))
    (hheader : ((List.range (shown fieldOptions header).length).map fun j =>
      (listed fieldOptions header)[j]?.bind fun v => header[column fieldOptions header v]?) = cols.map (header[·]?)) :
    (listed fieldOptions header).length = (shown fieldOptions header).length := by
  refine le_antisymm (List.length_take_le _ _) (Nat.le_of_not_lt fun hlt => ?_)
  have hplace := congrArg (·[(listed fieldOptions header).length]?) hheader
  simp only [List.getElem?_map, List.getElem?_range hlt, Option.map_some, List.getElem?_eq_none le_rfl, Option.bind_none] at hplace
  obtain ⟨k, hk, hnone⟩ := Option.map_eq_some_iff.mp hplace.symm
  obtain ⟨v, hv, -⟩ := mem_places.mp (hcols.mem_iff.mp (List.mem_of_getElem? hk))
  rw [Option.mem_def, hnone] at hv
  exact absurd hv (Option.some_ne_none v).symm

theorem listable_of_restricted (hrows : ∀ row ∈ rows, row.length = header.length) {out : List (List (Option (Value ν)))}
    (hout : arranged fieldOptions header rows = some out) (h : Restricted fieldOptions header rows out) :
    Listable fieldOptions header rows := by
  obtain ⟨cols, hnodup, hmem, hpairwise, hcells⟩ := h
  rw [Listable]
  split_ifs with hshown
  · rw [arranged_nil hshown, Option.some_inj] at hout
    have hlength := congrArg List.length (hout.trans hcells)
    rw [List.length_map] at hlength
    exact List.length_eq_zero_iff.mp (Nat.succ_inj.mp hlength).symm
  · rw [arranged_eq hshown hrows, Option.some_inj] at hout
    have hcols := perm_places hnodup hmem
    have hrow := List.map_inj_left.mp (hout.trans hcells)
    have hlength := length_listed hcols (hrow header List.mem_cons_self)
    rw [← hlength] at hrow
    simp only [map_range_getElem?] at hrow
    have hheader : cols.map (header[·]?) = (listed fieldOptions header).map some := by
      rw [← hrow header List.mem_cons_self]
      exact List.map_congr_left fun v hv => header_column (mem_shown_of_listed hv)
    refine ⟨?_, (pairwise_cols hheader).mp hpairwise, fun row hr => agree_iff.mpr fun i hi => ?_⟩
    · refine (List.map_perm_map_iff fun _ _ => Option.some_inj.mp).mp ?_
      rw [← hheader, ← map_places]
      exact hcols.map _
    · have hcells := (map_cols hheader row).symm.trans (hrow row (List.mem_cons_of_mem _ hr))
      exact (List.map_inj_left.mp hcells i (hcols.mem_iff.mpr hi)).symm

theorem restricted_of_listable (hrows : ∀ row ∈ rows, row.length = header.length) (h : Listable fieldOptions header rows) :
    ∃ out, arranged fieldOptions header rows = some out ∧ Restricted fieldOptions header rows out := by
  rw [Listable] at h
  split_ifs at h with hshown
  · subst h
    refine ⟨_, arranged_nil hshown, [], List.nodup_nil, fun j => ?_, List.Pairwise.nil, rfl⟩
    have hplaces : places (header.map (visible fieldOptions)) = [] := by
      rw [← List.length_eq_zero_iff, ← length_shown, hshown, List.length_nil]
    rw [← mem_places, hplaces]
  · obtain ⟨hperm, hpairwise, hagree⟩ := h
    obtain ⟨cols, hheader, hcols⟩ : Relation.Comp (· = List.map (header[·]?) ·) List.Perm
        ((listed fieldOptions header).map some) (places (header.map (visible fieldOptions))) := by
      rw [List.eq_map_comp_perm]
      change ((listed fieldOptions header).map some).Perm ((places (header.map (visible fieldOptions))).map (header[·]?))
      rw [map_places]
      exact hperm.map some
    refine ⟨_, arranged_eq hshown hrows, cols, hcols.nodup_iff.mpr nodup_places, fun j => hcols.mem_iff.trans mem_places,
      (pairwise_cols hheader.symm).mpr hpairwise, List.map_congr_left fun row hrow => ?_⟩
    rw [← hperm.length_eq, map_range_getElem?, map_cols hheader.symm]
    refine List.map_congr_left fun i hi => ?_
    have hi := hcols.mem_iff.mp hi
    rcases List.mem_cons.mp hrow with rfl | hrow
    · obtain ⟨v, hv, hvisible⟩ := mem_places.mp hi
      rw [hv]
      exact header_column (List.mem_filter.mpr ⟨List.mem_of_getElem? hv, hvisible⟩)
    · exact (agree_iff.mp (hagree row hrow) i hi).symm

theorem arranged_restricted_iff (hrows : ∀ row ∈ rows, row.length = header.length) :
    (∃ out, arranged fieldOptions header rows = some out ∧ Restricted fieldOptions header rows out) ↔
      Listable fieldOptions header rows :=
  ⟨fun ⟨_, hout, h⟩ => listable_of_restricted hrows hout h, restricted_of_listable hrows⟩

theorem Listable.of_perm {rows rows' : List (List (Value ν))} (hperm : rows'.Perm rows) :
    Listable fieldOptions header rows' ↔ Listable fieldOptions header rows := by
  rw [Listable, Listable]
  split_ifs
  · exact ⟨fun h => List.nil_perm.mp (h ▸ hperm), fun h => List.perm_nil.mp (h ▸ hperm)⟩
  · simp only [hperm.mem_iff]

theorem transformTableData_eq (orderBy : OrderBy ν) (sort : TableSort) :
    transformTableData orderBy (header :: rows) sort fieldOptions =
      (arranged fieldOptions header (sortedRows orderBy header rows sort)).map fun out =>
        (out, (header :: sortedRows orderBy header rows sort).map fun r => r[0]?) := by
  simp only [transformTableData, sortTableData, arranged, Option.bind_eq_bind, Option.bind_some, Option.map_bind]
  refine congrArg _ (funext fun filteredData => ?_)
  exact (Option.map_eq_bind ..).symm

theorem applyChangesToTableData_eq (columns : List (Value ν)) (values : List (List (Value ν))) (tableColumns : List FieldOption) :
    applyChangesToTableData columns values tableColumns =
      (arranged tableColumns columns values).map fun out => (out.headD [], out.drop 1) := by
  simp only [applyChangesToTableData, arranged, Option.bind_eq_bind, Option.map_bind]
  refine congrArg _ (funext fun filteredData => ?_)
  exact (Option.map_eq_bind ..).symm

/-- The tables of both functions have the columns that they should exactly for these options. -/
theorem table_columns_iff (orderBy : OrderBy ν) (horderBy : ∀ rows place direction, (orderBy rows place direction).Perm rows)
    (header : List (Value ν)) (rows : List (List (Value ν))) (hrows : ∀ row ∈ rows, row.length = header.length)
    (fieldOptions : List FieldOption) (sort : TableSort) :
    ((∃ out, transformTableData orderBy (header :: rows) sort fieldOptions =
        some (out, (header :: sortedRows orderBy header rows sort).map fun r => r[0]?) ∧
      Restricted fieldOptions header (sortedRows orderBy header rows sort) out) ↔ Listable fieldOptions header rows) ∧
    ((∃ columns values, applyChangesToTableData header rows fieldOptions = some (columns, values) ∧
      Restricted fieldOptions header rows (columns :: values)) ↔ Listable fieldOptions header rows) := by
  constructor
  · have hsorted : (sortedRows orderBy header rows sort).Perm rows := horderBy _ _ _
    rw [← Listable.of_perm hsorted, ← arranged_restricted_iff fun row hrow => hrows row (hsorted.mem_iff.mp hrow)]
    refine exists_congr fun out => and_congr_left fun _ => ?_
    rw [transformTableData_eq, Option.map_eq_some_iff]
    constructor
    · rintro ⟨out', hout, heq⟩
      rwa [← (Prod.mk.inj heq).1]
    · exact fun hout => ⟨out, hout, rfl⟩
  · rw [← arranged_restricted_iff hrows]
    simp only [applyChangesToTableData_eq, Option.map_eq_some_iff]
    constructor
    · rintro ⟨columns, values, ⟨out, hout, heq⟩, h⟩
      obtain ⟨rfl, rfl⟩ := Prod.mk.inj heq
      cases out with
      | nil => exact absurd rfl (arranged_ne_nil hrows hout)
      | cons columns values => exact ⟨_, hout, h⟩
    · rintro ⟨out, hout, h⟩
      obtain ⟨cols, -, -, -, rfl⟩ := id h
      exact ⟨_, _, ⟨_, hout, rfl⟩, h⟩

theorem table_columns_descending :
    ((∃ out, transformTableData (fun rows _ direction => if direction = "desc" then rows.reverse else rows)
        [[.string "time", .string "m.f"], [.number 1, .number 7], [.number 2, .null]] ⟨"time", "desc"⟩
        [⟨"m.f", "", true⟩, ⟨"time", "", true⟩] =
        some (out, [some (.string "time"), some (.number 2), some (.number (1 : ℕ))]) ∧
      Restricted [⟨"m.f", "", true⟩, ⟨"time", "", true⟩] [.string "time", .string "m.f"] [[.number 2, .null], [.number 1, .number 7]] out) ↔
      Listable [⟨"m.f", "", true⟩, ⟨"time", "", true⟩] [.string "time", .string "m.f"] [[.number 1, .number 7], [.number 2, .null]]) := by
  refine (table_columns_iff (fun rows _ direction => if direction = "desc" then rows.reverse else rows) (fun rows _ direction => ?_)
    [.string "time", .string "m.f"] [[.number 1, .number 7], [.number 2, .null]] (by decide)
    [⟨"m.f", "", true⟩, ⟨"time", "", true⟩] ⟨"time", "desc"⟩).1
  split_ifs
  · exact List.reverse_perm rows
  · exact List.Perm.refl rows

/-- Two columns of one label, with the options computed for them: the first comes twice, and the other is lost. -/
theorem repeated_label_lost : ¬ ∃ out times, transformTableData (fun rows _ _ => rows)
      [[.string "time", .string "m.f", .string "m.f"], [.number 1, .number 7, .number 8]] ⟨"time", "asc"⟩
      (computeFieldOptions [] ["m.f", "m.f"]) = some (out, times) ∧
    Restricted (computeFieldOptions [] ["m.f", "m.f"]) [.string "time", .string "m.f", .string "m.f"]
      [[.number 1, .number 7, .number (8 : ℕ)]] out := by
  rintro ⟨out, times, hout, cols, -, hmem, -, hcells⟩
  have hlast : 2 ∈ cols := (hmem 2).mpr ⟨.string "m.f", rfl, by decide⟩
  have hlost : some [some (.number 1), some (.number 7), some (.number 7)] =
      some (cols.map (([.number 1, .number 7, .number (8 : ℕ)] : List (Value ℕ))[·]?)) :=
    (congrArg (fun table => (table.bind fun t => t.1[1]?)) hout).trans (congrArg (·[1]?) hcells)
  have hvalue : some (.number 8) ∈ [some (Value.number 1), some (.number 7), some (.number 7)] :=
    Option.some_inj.mp hlost ▸ List.mem_map.mpr ⟨2, hlast, rfl⟩
  exact absurd hvalue (by decide)

/-! ### Options that are computed -/

theorem rank_some (fieldOptions : List FieldOption) (v : Value ν) :
    rank fieldOptions (some v) = (fieldOptions.map FieldOption.label).idxOf v := by
  induction fieldOptions with
  | nil => rfl
  | cons o os ih =>
    rw [rank] at ih ⊢
    rw [List.map_cons, List.map_cons]
    by_cases h : (o.label : Value ν) = v
    · rw [h, List.idxOf_cons_self, List.idxOf_cons_self]
    · rw [List.idxOf_cons_ne _ h, List.idxOf_cons_ne _ fun heq => h (Option.some_inj.mp heq), ih]

/-- Where labels differ, and each visible column has one option, the columns are right. -/
theorem listable_of_nodup (hshown : shown fieldOptions header ≠ []) (hheader : header.Nodup)
    (hoptions : (fieldOptions.map FieldOption.internalName).Nodup)
    (hnamed : ∀ v ∈ shown fieldOptions header, v ∈ fieldOptions.map FieldOption.label) : Listable fieldOptions header rows := by
  have hlabels : (fieldOptions.map FieldOption.label : List (Value ν)).Nodup := by
    have hmap := hoptions.map (f := (Value.string : String → Value ν)) fun _ _ heq => Value.string.inj heq
    rwa [List.map_map] at hmap
  have hnames : ((fieldOptions.map FieldOption.label).filter (· ∈ shown fieldOptions header)).Perm (shown fieldOptions header) := by
    refine (List.perm_ext_iff_of_nodup (hlabels.filter _) (hheader.filter _)).mpr fun v => ?_
    rw [List.mem_filter, decide_eq_true_iff]
    exact ⟨And.right, fun hv => ⟨hnamed v hv, hv⟩⟩
  have hlisted : listed fieldOptions header = (fieldOptions.map FieldOption.label).filter (· ∈ shown fieldOptions header) := by
    rw [listed, ← hnames.length_eq, List.take_length]
  rw [Listable, if_neg hshown]
  refine ⟨hlisted ▸ hnames, ?_, fun row _ i hi j hj heq => ?_⟩
  · simp only [rank_some]
    refine pairwise_idxOf_take_filter _ _ _ ?_
    exact (hlabels.filter _).sublist (List.take_sublist _ _)
  · obtain ⟨v, hv, -⟩ := mem_places.mp hi
    have hlt : i < header.length := (List.getElem?_eq_some_iff.mp hv).1
    rw [(List.getElem?_inj hlt hheader).mp heq]

/-- The options for the time and for each label. -/
def astNames (existing : List FieldOption) (sortedLabels : List String) : List FieldOption :=
  (existing.find? fun f => f.internalName = "time").getD DEFAULT_TIME_FIELD :: sortedLabels.map fun label => ⟨label, "", true⟩

theorem map_astNames (existing : List FieldOption) (sortedLabels : List String) :
    (astNames existing sortedLabels).map FieldOption.internalName = "time" :: sortedLabels := by
  have htime : ((existing.find? fun f => f.internalName = "time").getD DEFAULT_TIME_FIELD).internalName = "time" := by
    cases h : existing.find? fun f => f.internalName = "time" with
    | none => rfl
    | some f =>
      have hname := List.find?_some h
      exact of_decide_eq_true hname
  have hlabels : (sortedLabels.map fun label => (⟨label, "", true⟩ : FieldOption)).map FieldOption.internalName = sortedLabels := by
    rw [List.map_map]
    exact List.map_id' sortedLabels
  rw [astNames, List.map_cons, htime, hlabels]

theorem mem_computeFieldOptions {existing : List FieldOption} {sortedLabels : List String} {o : FieldOption} :
    o ∈ computeFieldOptions existing sortedLabels ↔ (o ∈ existing ∧ o.internalName ∈ "time" :: sortedLabels) ∨
      (o ∈ astNames existing sortedLabels ∧ o.internalName ∉ existing.map FieldOption.internalName) := by
  have hmem : ∀ (options : List FieldOption) (name : String),
      (∃ a ∈ options, a.internalName = name) ↔ name ∈ options.map FieldOption.internalName :=
    fun options name => List.mem_map.symm
  rw [← map_astNames existing sortedLabels, ← hmem, ← hmem]
  simp [computeFieldOptions, astNames]

/-- Options that are there keep their names apart; each label gets one. -/
theorem computeFieldOptions_names {existing : List FieldOption} {sortedLabels : List String}
    (hexisting : (existing.map FieldOption.internalName).Nodup) (hlabels : ("time" :: sortedLabels).Nodup) :
    ((computeFieldOptions existing sortedLabels).map FieldOption.internalName).Nodup ∧
      ∀ label ∈ "time" :: sortedLabels, label ∈ (computeFieldOptions existing sortedLabels).map FieldOption.internalName := by
  constructor
  · rw [← map_astNames existing sortedLabels] at hlabels
    rw [computeFieldOptions, List.map_append]
    refine List.Nodup.append (hexisting.sublist ((List.filter_sublist).map _)) (hlabels.sublist ((List.filter_sublist).map _)) ?_
    intro name hold hnew
    obtain ⟨f, hf, rfl⟩ := List.mem_map.mp hold
    obtain ⟨a, ha, hname⟩ := List.mem_map.mp hnew
    have hfound := (List.mem_filter.mp ha).2
    rw [hname, Bool.not_eq_true', Option.isSome_eq_false_iff, Option.isNone_iff_eq_none, List.find?_eq_none] at hfound
    exact hfound f (List.mem_of_mem_filter hf) (decide_eq_true rfl)
  · intro label hlabel
    by_cases h : label ∈ existing.map FieldOption.internalName
    · obtain ⟨f, hf, rfl⟩ := List.mem_map.mp h
      exact List.mem_map.mpr ⟨f, mem_computeFieldOptions.mpr (.inl ⟨hf, hlabel⟩), rfl⟩
    · obtain ⟨a, ha, rfl⟩ := List.mem_map.mp (map_astNames existing sortedLabels ▸ hlabel)
      exact List.mem_map.mpr ⟨a, mem_computeFieldOptions.mpr (.inr ⟨ha, h⟩), rfl⟩

/-- With options that differ in their names, and labels that differ, the table is right
unless all of its columns are hidden. -/
theorem computeFieldOptions_listable {existing : List FieldOption} {sortedLabels : List String}
    (hexisting : (existing.map FieldOption.internalName).Nodup) (hlabels : ("time" :: sortedLabels).Nodup)
    (hheader : header = ("time" :: sortedLabels).map Value.string)
    (hshown : shown (computeFieldOptions existing sortedLabels) header ≠ []) :
    Listable (computeFieldOptions existing sortedLabels) header rows := by
  obtain ⟨hnames, hnamed⟩ := computeFieldOptions_names hexisting hlabels
  refine listable_of_nodup hshown ?_ hnames fun v hv => ?_
  · exact hheader ▸ hlabels.map fun _ _ heq => Value.string.inj heq
  · have hmem := List.mem_of_mem_filter hv
    rw [hheader] at hmem
    obtain ⟨label, hlabel, rfl⟩ := List.mem_map.mp hmem
    obtain ⟨o, ho, rfl⟩ := List.mem_map.mp (hnamed label hlabel)
    exact List.mem_map.mpr ⟨o, ho, rfl⟩

end TableGraph
end Chronograf
