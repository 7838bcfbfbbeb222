/-
# The table of grouped queries

For a table, the series of a grouped query are flattened into one series that
has the name, the columns and the tags of the first one, and every row of it
should be a row of the table. Only the first statement of a response is
flattened, and a row is read with the heading of the first series whatever its
own is; where the headings agree and every label is found by its key, nothing is
lost.

Key definitions: `ownCells`, `Shown`, `Listed`, `heading`, `Uniform`.
Key theorems: `fill_of_mem`, `shown_fill`, `listed_of_uniform`.
-/
import Chronograf.Graphs.Table
import Chronograf.Lib.Checks
import Chronograf.Lib.Collate
import Mathlib.Data.List.Forall2

namespace Chronograf
namespace Graphs

variable {α : Type}

/-! ### What is expected of the table -/

/-- The statements of a response that went well. -/
def successfulResults (response : TimeSeriesServerResponse α) : List (List (TimeSeriesSeries α)) :=
  response.filterMap TimeSeriesResult.successful

def fields (s : TimeSeriesSeries α) : List String := (s.columns.drop 1).map fun field => s.name ++ "." ++ field

/-- The tags of the series and the values of its row, each with its label. -/
def ownCells (text : String → α) (s : TimeSeriesSeries α) (row : Row α) : List (String × Option α) :=
  s.tags.map (fun tag => (tag.1, some (text tag.2))) ++ (fields s).zip row.values

/-- The row stands in the table under columns of its own query, and `-` elsewhere. -/
structure Shown (text : String → α) (labels : List Label) (r : ℕ) (s : TimeSeriesSeries α) (row : Row α) (out : TimeSeries α) :
    Prop where
  time : out.time = row.time
  width : out.values.length = labels.length
  placed : ∃ g : Fin (ownCells text s row).length → Fin labels.length, Function.Injective g ∧
    (∀ k, labels[g k].label = (ownCells text s row)[k].1 ∧ labels[g k].responseIndex = r ∧
      out.values[g k]? = some (ownCells text s row)[k].2) ∧
    ∀ p : Fin labels.length, (∀ k, g k ≠ p) → out.values[p]? = some (some (text "-"))

/-- A row of the input with its series and the number of its response. -/
structure Input (α : Type) where
  response : ℕ
  series : TimeSeriesSeries α
  row : Row α

def statementRows (r : ℕ) (results : List (TimeSeriesSeries α)) : List (Input α) :=
  results.flatMap fun s => s.values.map fun row => ⟨r, s, row⟩

/-- Every row of every series of every statement of every response. -/
def inputRows (raw : List (TimeSeriesServerResponse α)) : List (Input α) :=
  raw.zipIdx.flatMap fun (response, r) => (successfulResults response).flatMap (statementRows r)

/-- The table has one row for each row of the input, in the order of time. -/
structure Listed (text : String → α) (raw : List (TimeSeriesServerResponse α)) (labels : List Label)
    (rows : List (TimeSeries α)) : Prop where
  ascending : rows.Pairwise (·.time ≤ ·.time)
  shown : ∃ order, order.Perm rows ∧
    List.Forall₂ (fun i out => Shown text labels i.response i.series i.row out) (inputRows raw) order

/-! ### When nothing is lost -/

/-- The tags and fields of the first series of a response. -/
def heading (response : TimeSeriesServerResponse α) : List String :=
  match successfulResults response with
  | (s :: _) :: _ => s.tags.map Prod.fst ++ fields s
  | _ => []

/-- The labels of all responses. -/
def headings (raw : List (TimeSeriesServerResponse α)) : List Label :=
  raw.zipIdx.flatMap fun (response, r) => (heading response).map fun label => ⟨label, 0, r⟩

/-- The rows of a response are all in its first statement, their series have the
fields and tags of the first one, and its labels are found by their keys. -/
structure Uniform (raw : List (TimeSeriesServerResponse α)) (response : TimeSeriesServerResponse α) (r : ℕ) : Prop where
  one : ∀ results ∈ (successfulResults response).tail, ∀ s ∈ results, s.values = []
  alike : ∀ first others rest, successfulResults response = (first :: others) :: rest →
    ∀ s ∈ first :: others, s.values ≠ [] → fields s = fields first ∧
      (s.tags.map Prod.fst).Perm (first.tags.map Prod.fst) ∧
      first.tags.map Prod.fst = (tagsFromResults response).map Prod.fst
  nodup : (∃ results ∈ successfulResults response, ∃ s ∈ results, s.values ≠ []) → (heading response).Nodup
  found : (∃ results ∈ successfulResults response, ∃ s ∈ results, s.values ≠ []) → ∀ label ∈ heading response,
    ∀ l ∈ headings raw, l.key = Label.key ⟨label, 0, r⟩ → l = ⟨label, 0, r⟩ ∨ l.label < label

/-! ### Filling a row -/

/-- The values of a row of the table. -/
def fill (text : String → α) (labels : List Label) (cells : List (Cell α)) : List (Option α) :=
  cells.foldl (fun values cell => assign values (labelsToValueIndex labels cell.label.key) cell.value)
    (List.replicate labels.length (some (text "-")))

variable {labels : List Label}

theorem length_assign (values : List (Option α)) (index : Option ℕ) (v : Option α) : (assign values index v).length = values.length := by
  unfold assign
  split
  · exact List.length_set
  · rfl

theorem assign_self {values : List (Option α)} {p : ℕ} (h : p < values.length) (v : Option α) :
    (assign values (some p) v)[p]? = some v := List.getElem?_set_self h

theorem assign_other {values : List (Option α)} {index : Option ℕ} {p : ℕ} (h : index ≠ some p) (v : Option α) :
    (assign values index v)[p]? = values[p]? := by
  cases index with
  | none => rfl
  | some q => exact List.getElem?_set_ne fun heq => h (congrArg some heq)

section Fold

variable {cells : List (Cell α)} {values : List (Option α)} {p : ℕ}

theorem length_foldl_assign : (cells.foldl (fun values cell =>
    assign values (labelsToValueIndex labels cell.label.key) cell.value) values).length = values.length := by
  induction cells generalizing values with
  | nil => rfl
  | cons c cells ih => rw [List.foldl_cons, ih, length_assign]

/-- A place that none of the cells has is left alone. -/
theorem foldl_assign_other (h : ∀ c ∈ cells, labelsToValueIndex labels c.label.key ≠ some p) :
    (cells.foldl (fun values cell => assign values (labelsToValueIndex labels cell.label.key) cell.value) values)[p]? =
      values[p]? := by
  induction cells generalizing values with
  | nil => rfl
  | cons c cells ih =>
    obtain ⟨hc, hcells⟩ := List.forall_mem_cons.mp h
    rw [List.foldl_cons, ih hcells, assign_other hc]

theorem key_eq_of_index {key key' : String} (h : labelsToValueIndex labels key = some p)
    (h' : labelsToValueIndex labels key' = some p) : key = key' := by
  obtain ⟨⟨l, hl, hkey⟩, -⟩ := labelsToValueIndex_eq_some_iff.mp h
  obtain ⟨⟨l', hl', hkey'⟩, -⟩ := labelsToValueIndex_eq_some_iff.mp h'
  obtain rfl := Option.some.inj (hl.symm.trans hl')
  exact hkey.symm.trans hkey'

/-- Cells with different keys are all where their keys are found. -/
theorem foldl_assign_of_mem (hkeys : cells.Pairwise fun c d => c.label.key ≠ d.label.key) {c : Cell α} (hc : c ∈ cells)
    (hp : labelsToValueIndex labels c.label.key = some p) (hlt : p < values.length) :
    (cells.foldl (fun values cell => assign values (labelsToValueIndex labels cell.label.key) cell.value) values)[p]? =
      some c.value := by
  induction cells generalizing values with
  | nil => exact absurd hc List.not_mem_nil
  | cons d cells ih =>
    obtain ⟨hd, hcells⟩ := List.pairwise_cons.mp hkeys
    rw [List.foldl_cons]
    rcases List.mem_cons.mp hc with rfl | hc
    · have hother : ∀ d ∈ cells, labelsToValueIndex labels d.label.key ≠ some p :=
        fun d hmem hindex => hd d hmem (key_eq_of_index hp hindex)
      rw [foldl_assign_other hother, hp, assign_self hlt]
    · exact ih hcells hc ((length_assign _ _ _).symm ▸ hlt)

end Fold

/-- A row that is read with labels that are all found shows what it has of its own. -/
theorem shown_fill {text : String → α} {cells : List (Cell α)} {r : ℕ} {s : TimeSeriesSeries α} {row : Row α}
    (hperm : (ownCells text s row).Perm (cells.map fun c => (c.label.label, c.value)))
    (hkeys : cells.Pairwise fun c d => c.label.key ≠ d.label.key)
    (hfound : ∀ c ∈ cells, ∃ p l, labelsToValueIndex labels c.label.key = some p ∧ labels[p]? = some l ∧
      l.label = c.label.label ∧ l.responseIndex = r) :
    Shown text labels r s row ⟨row.time, fill text labels cells⟩ := by
  obtain ⟨σ, hσ⟩ := exists_equiv_of_perm hperm
  have hplace : ∀ k : Fin (ownCells text s row).length, ∃ p : Fin labels.length, ∃ c, cells[(σ k).val]? = some c ∧
      labelsToValueIndex labels c.label.key = some (p : ℕ) ∧ labels[p].label = (ownCells text s row)[k].1 ∧
      labels[p].responseIndex = r ∧ c.value = (ownCells text s row)[k].2 := by
    intro k
    have hlt : (σ k).val < cells.length := (σ k).2.trans_eq (List.length_map _)
    have hcell : (cells[(σ k).val].label.label, cells[(σ k).val].value) = (ownCells text s row)[k] := by
      rw [← hσ k, Fin.getElem_fin, List.getElem_map]
    obtain ⟨p, l, hp, hl, hlabel, hr⟩ := hfound cells[(σ k).val] (List.getElem_mem hlt)
    obtain ⟨hpl, heq⟩ := List.getElem?_eq_some_iff.mp hl
    refine ⟨⟨p, hpl⟩, cells[(σ k).val], List.getElem?_eq_getElem hlt, hp, ?_, ?_, ?_⟩
    · rw [← hcell, ← hlabel, ← heq]
      rfl
    · rw [← hr, ← heq]
      rfl
    · rw [← hcell]
  choose g c hc hindex hlabel hr hvalue using hplace
  have hwidth : (fill text labels cells).length = labels.length := by
    unfold fill
    rw [length_foldl_assign, List.length_replicate]
  refine ⟨rfl, hwidth, g, ?_, fun k => ⟨hlabel k, hr k, ?_⟩, fun p hp => ?_⟩
  · intro i j hij
    -- two cells with one place have one key
    have hkey : (c i).label.key = (c j).label.key := key_eq_of_index (hindex i) (hij ▸ hindex j)
    by_contra hne
    have hσne : (σ i).val ≠ (σ j).val := fun h => hne (σ.injective (Fin.ext h))
    obtain ⟨hi, hci⟩ := List.getElem?_eq_some_iff.mp (hc i)
    obtain ⟨hj, hcj⟩ := List.getElem?_eq_some_iff.mp (hc j)
    have hpair := List.pairwise_iff_getElem.mp hkeys
    rcases Nat.lt_or_gt_of_ne hσne with hlt | hlt
    · exact hpair _ _ hi hj hlt (hci ▸ hcj ▸ hkey)
    · exact hpair _ _ hj hi hlt (hci ▸ hcj ▸ hkey.symm)
  · rw [← hvalue k]
    refine foldl_assign_of_mem hkeys (List.mem_of_getElem? (hc k)) (hindex k) ?_
    rw [List.length_replicate]
    exact (g k).2
  · have hother : ∀ d ∈ cells, labelsToValueIndex labels d.label.key ≠ some (p : ℕ) := by
      intro d hd hindexd
      obtain ⟨n, hn, rfl⟩ := List.mem_iff_getElem.mp hd
      -- every cell is one of the row's own
      have hsome : c (σ.symm ⟨n, hn.trans_eq (List.length_map _).symm⟩) = cells[n] := by
        have hget := hc (σ.symm ⟨n, hn.trans_eq (List.length_map _).symm⟩)
        rw [σ.apply_symm_apply] at hget
        exact Option.some.inj (hget.symm.trans (List.getElem?_eq_getElem hn))
      refine hp (σ.symm ⟨n, hn.trans_eq (List.length_map _).symm⟩) (Fin.ext ?_)
      have h := hindex (σ.symm ⟨n, hn.trans_eq (List.length_map _).symm⟩)
      rw [hsome] at h
      exact Option.some.inj (h.symm.trans hindexd)
    have hdash : (List.replicate labels.length (some (text "-")))[p.val]? = some (some (text "-")) := by
      rw [List.getElem?_replicate, if_pos p.2]
    exact (foldl_assign_other hother).trans hdash

/-! ### The flattened series -/

/-- The series that a response is flattened into. -/
def flattened (text : String → α) (response : TimeSeriesServerResponse α) (r : ℕ) : List (Series α) :=
  constructSerieses (flattenGroupBySeries text (successfulResults response) r (tagsFromResults response))

variable {text : String → α} {raw : List (TimeSeriesServerResponse α)}

theorem serieses_eq (h : ∀ response ∈ raw, tagsFromResults response ≠ []) :
    constructSerieses (constructResults text raw true) = raw.zipIdx.flatMap fun (response, r) => flattened text response r := by
  unfold constructSerieses constructResults
  rw [List.flatMap_assoc]
  refine List.flatMap_congr ?_
  rintro ⟨response, r⟩ hmem
  have htags := h response (List.fst_mem_of_mem_zipIdx hmem)
  simp only [true_and, ne_eq, htags, not_false_eq_true, if_true]
  rfl

/-- The rows of all series of a statement, under the heading of the first one. -/
def headed (text : String → α) (response : TimeSeriesServerResponse α) (r : ℕ) (results : List (TimeSeriesSeries α)) : Series α where
  columns := (results.head?.map (·.columns)).getD []
  tags := (results.head?.map (·.tags)).getD []
  name := (results.head?.map (·.name)).getD ""
  values := results.flatMap fun s => s.values.map fun row =>
    { row with values := (tagsFromResults response).map (fun tag => (s.tags.lookup tag.1).map text) ++ row.values }
  responseIndex := r
  seriesIndex := 0
  isGroupBy := true

theorem flattened_nil {response : TimeSeriesServerResponse α} {r : ℕ} (h : successfulResults response = []) :
    flattened text response r = [] := by
  unfold flattened flattenGroupBySeries
  rw [h]
  rfl

theorem flattened_cons {response : TimeSeriesServerResponse α} {r : ℕ} {results : List (TimeSeriesSeries α)}
    {rest : List (List (TimeSeriesSeries α))} (h : successfulResults response = results :: rest) :
    flattened text response r = [headed text response r results] := by
  unfold flattened flattenGroupBySeries
  rw [h]
  rfl

theorem isGroupBy_of_mem_flattened {response : TimeSeriesServerResponse α} {r : ℕ} {s : Series α}
    (h : s ∈ flattened text response r) : s.isGroupBy = true := by
  cases hresults : successfulResults response with
  | nil => exact absurd (flattened_nil hresults ▸ h) List.not_mem_nil
  | cons results rest =>
    obtain rfl := List.mem_singleton.mp (flattened_cons hresults ▸ h)
    rfl

/-- The labels of the flattened series are those of the first one. -/
theorem labels_headed (text : String → α) {response : TimeSeriesServerResponse α} (r : ℕ) {results : List (TimeSeriesSeries α)}
    {rest : List (List (TimeSeriesSeries α))} (h : successfulResults response = results :: rest) :
    unsortedLabels (headed text response r results) = (heading response).map fun label => ⟨label, 0, r⟩ := by
  unfold heading
  rw [h]
  cases results with
  | nil => rfl
  | cons first others => simp [headed, unsortedLabels, fields, Function.comp_def]

theorem labels_flattened (text : String → α) (response : TimeSeriesServerResponse α) (r : ℕ) :
    (flattened text response r).flatMap unsortedLabels = (heading response).map fun label => ⟨label, 0, r⟩ := by
  cases hresults : successfulResults response with
  | nil =>
    rw [flattened_nil hresults]
    unfold heading
    rw [hresults]
    rfl
  | cons results rest =>
    rw [flattened_cons hresults, List.flatMap_cons, List.flatMap_nil, List.append_nil, labels_headed text r hresults]

/-- The cells that a row is read as, under the labels of its response. -/
def readCells (text : String → α) (response : TimeSeriesServerResponse α) (r : ℕ) (s : TimeSeriesSeries α) (row : Row α) :
    List (Cell α) :=
  (((heading response).map fun label => (⟨label, 0, r⟩ : Label)).zip
    ((tagsFromResults response).map (fun tag => (s.tags.lookup tag.1).map text) ++ row.values)).map
      fun (label, value) => ⟨label, value, row.time⟩

theorem readCells_eq {response : TimeSeriesServerResponse α} {r : ℕ} {s : TimeSeriesSeries α} {row : Row α} :
    (readCells text response r s row).map (fun c => (c.label.label, c.value)) = (heading response).zip
      ((tagsFromResults response).map (fun tag => (s.tags.lookup tag.1).map text) ++ row.values) := by
  unfold readCells
  rw [List.zip_map_left, List.map_map, List.map_map]
  exact List.map_id _

theorem lookup_of_mem {tags : List (String × String)} {tag : String × String} (h : (tags.map Prod.fst).Nodup) (htag : tag ∈ tags) :
    tags.lookup tag.1 = some tag.2 := by
  induction tags with
  | nil => exact absurd htag List.not_mem_nil
  | cons t tags ih =>
    obtain ⟨ht, htags⟩ := List.nodup_cons.mp h
    rcases List.mem_cons.mp htag with rfl | htag
    · exact List.lookup_cons_self
    · have hne : tag.1 ≠ t.1 := fun heq => ht (heq ▸ List.mem_map_of_mem htag)
      rw [List.lookup_cons, beq_false_of_ne hne]
      exact ih htags htag

/-- With the heading of its own series, a row is read as it is. -/
theorem ownCells_perm {response : TimeSeriesServerResponse α} {r : ℕ} {first s : TimeSeriesSeries α}
    {others : List (TimeSeriesSeries α)} {rest : List (List (TimeSeriesSeries α))} {row : Row α}
    (hresults : successfulResults response = (first :: others) :: rest) (hfields : fields s = fields first)
    (htags : (s.tags.map Prod.fst).Perm (first.tags.map Prod.fst))
    (hkeys : first.tags.map Prod.fst = (tagsFromResults response).map Prod.fst) (hnodup : (heading response).Nodup) :
    (ownCells text s row).Perm ((readCells text response r s row).map fun c => (c.label.label, c.value)) := by
  have hheading : heading response = first.tags.map Prod.fst ++ fields first := by
    unfold heading
    rw [hresults]
  have hlength : (first.tags.map Prod.fst).length =
      ((tagsFromResults response).map fun tag => (s.tags.lookup tag.1).map text).length := by
    rw [hkeys, List.length_map, List.length_map]
  have hread : (first.tags.map Prod.fst).zip ((tagsFromResults response).map fun tag => (s.tags.lookup tag.1).map text) =
      (first.tags.map Prod.fst).map fun key => (key, (s.tags.lookup key).map text) := by
    have hmap : ((tagsFromResults response).map fun tag => (s.tags.lookup tag.1).map text) =
        (first.tags.map Prod.fst).map fun key => (s.tags.lookup key).map text := by
      rw [hkeys, List.map_map]
      rfl
    rw [hmap]
    exact List.map_prod_left_eq_zip.symm
  have hdistinct : (s.tags.map Prod.fst).Nodup :=
    htags.nodup_iff.mpr ((List.nodup_append.mp (hheading ▸ hnodup)).1)
  have hown : s.tags.map (fun tag => (tag.1, some (text tag.2))) =
      (s.tags.map Prod.fst).map fun key => (key, (s.tags.lookup key).map text) := by
    rw [List.map_map]
    refine List.map_congr_left fun tag htag => ?_
    have hlookup : s.tags.lookup tag.1 = some tag.2 := lookup_of_mem hdistinct htag
    simp only [Function.comp_apply, hlookup, Option.map_some]
  rw [readCells_eq, hheading, List.zip_append hlength, hread, ← hfields]
  unfold ownCells
  rw [hown]
  exact (htags.map _).append_right _

/-! ### The rows of the table -/

/-- A row of a series as the table has it. -/
def tableRow (text : String → α) (labels : List Label) (s : Series α) (row : Row α) : TimeSeries α :=
  ⟨row.time, fill text labels (((unsortedLabels s).zip row.values).map fun (label, value) => ⟨label, value, row.time⟩)⟩

theorem insertGroupByValues_eq {serieses : List (Series α)} (hgrouped : ∀ s ∈ serieses, s.isGroupBy = true)
    (hfit : ∀ s ∈ serieses, ∀ row ∈ s.values, row.values.length ≤ (unsortedLabels s).length) :
    insertGroupByValues text serieses labels = some (serieses.flatMap fun s => s.values.map (tableRow text labels s)) := by
  unfold insertGroupByValues
  have hrow : ∀ s ∈ serieses, ∀ row ∈ s.values, (labelled s row >>= fun cells => pure (⟨row.time,
      cells.foldl (fun values cell => assign values (labelsToValueIndex labels cell.label.key) cell.value)
        (List.replicate labels.length (some (text "-")))⟩ : TimeSeries α)) = some (tableRow text labels s row) := by
    intro s hs row hrow
    unfold labelled
    rw [if_pos (hfit s hs row hrow)]
    rfl
  rw [List.filter_eq_self.mpr hgrouped, Option.mapM_eq_map fun s hs => Option.mapM_eq_map (hrow s hs), List.flatMap_def]
  rfl

theorem headings_eq (text : String → α) (h : ∀ response ∈ raw, tagsFromResults response ≠ []) :
    (constructSerieses (constructResults text raw true)).flatMap unsortedLabels = headings raw := by
  rw [serieses_eq h, List.flatMap_assoc]
  exact List.flatMap_congr fun p _ => labels_flattened text p.1 p.2

/-- The label that a key is found by is the one that it was made of. -/
theorem exists_found {serieses : List (Series α)} {l : Label} (hl : l ∈ serieses.flatMap unsortedLabels)
    (h : ∀ l' ∈ serieses.flatMap unsortedLabels, l'.key = l.key → l' = l ∨ l'.label < l.label) :
    ∃ p, labelsToValueIndex (sortedLabels serieses) l.key = some p ∧ (sortedLabels serieses)[p]? = some l := by
  have hmem : l ∈ sortedLabels serieses := (List.mem_insertionSort _).mpr hl
  obtain ⟨p, hp⟩ := exists_index hmem
  obtain ⟨⟨l', hl', hkey⟩, hlast⟩ := labelsToValueIndex_eq_some_iff.mp hp
  refine ⟨p, hp, ?_⟩
  rcases h l' ((List.mem_insertionSort _).mp (List.mem_of_getElem? hl')) hkey with rfl | hlt
  · exact hl'
  · -- the labels ascend up to the last one
    have : Std.Total fun a b : Label => a.label ≤ b.label := ⟨fun a b => le_total a.label b.label⟩
    have : IsTrans Label fun a b => a.label ≤ b.label := ⟨fun a b c => le_trans⟩
    have hsorted : (sortedLabels serieses).Pairwise fun a b => a.label ≤ b.label := List.pairwise_insertionSort _ _
    obtain ⟨q, hq⟩ := List.mem_iff_getElem?.mp hmem
    obtain ⟨hqlt, rfl⟩ := List.getElem?_eq_some_iff.mp hq
    obtain ⟨hplt, rfl⟩ := List.getElem?_eq_some_iff.mp hl'
    rcases eq_or_lt_of_le (hlast q _ hq rfl) with rfl | hqp
    · exact absurd hlt (lt_irrefl _)
    · exact absurd hlt (not_lt.mpr (List.pairwise_iff_getElem.mp hsorted q p hqlt hplt hqp))

/-- A row of the first statement, read with the labels of its response. -/
def readRow (text : String → α) (labels : List Label) (response : TimeSeriesServerResponse α) (i : Input α) : TimeSeries α :=
  ⟨i.row.time, fill text labels (readCells text response i.response i.series i.row)⟩

theorem rows_flattened {response : TimeSeriesServerResponse α} {r : ℕ} {results : List (TimeSeriesSeries α)}
    {rest : List (List (TimeSeriesSeries α))} (h : successfulResults response = results :: rest) :
    ((flattened text response r).flatMap fun s => s.values.map (tableRow text labels s)) =
      (statementRows r results).map (readRow text labels response) := by
  have hlabels := labels_headed text r h
  rw [flattened_cons h, List.flatMap_cons, List.flatMap_nil, List.append_nil]
  unfold statementRows
  rw [List.map_flatMap]
  have hvalues : (headed text response r results).values = results.flatMap fun s => s.values.map fun row =>
    { row with values := (tagsFromResults response).map (fun tag => (s.tags.lookup tag.1).map text) ++ row.values } := rfl
  rw [hvalues, List.map_flatMap]
  refine List.flatMap_congr fun s _ => ?_
  rw [List.map_map, List.map_map]
  refine List.map_congr_left fun row _ => ?_
  simp only [Function.comp_apply, tableRow, readRow, readCells, hlabels]

theorem exists_label {response : TimeSeriesServerResponse α} {r : ℕ} {s : TimeSeriesSeries α} {row : Row α} {c : Cell α}
    (hc : c ∈ readCells text response r s row) : ∃ label ∈ heading response, c.label = ⟨label, 0, r⟩ := by
  obtain ⟨⟨l, v⟩, hl, rfl⟩ := List.mem_map.mp hc
  obtain ⟨label, hlabel, rfl⟩ := List.mem_map.mp (List.of_mem_zip hl).1
  exact ⟨label, hlabel, rfl⟩

theorem mem_headings {response : TimeSeriesServerResponse α} {r : ℕ} (hmem : (response, r) ∈ raw.zipIdx) {label : String}
    (h : label ∈ heading response) : (⟨label, 0, r⟩ : Label) ∈ headings raw :=
  List.mem_flatMap.mpr ⟨(response, r), hmem, List.mem_map_of_mem h⟩

theorem keys_readCells {response : TimeSeriesServerResponse α} {r : ℕ} {s : TimeSeriesSeries α} {row : Row α}
    (hnodup : (heading response).Nodup)
    (hinj : ∀ a ∈ heading response, ∀ b ∈ heading response, Label.key ⟨a, 0, r⟩ = Label.key ⟨b, 0, r⟩ → a = b) :
    (readCells text response r s row).Pairwise fun c d => c.label.key ≠ d.label.key := by
  unfold readCells
  rw [List.pairwise_map, List.pairwise_iff_getElem]
  intro i j hi hj hlt hkey
  simp only [List.getElem_zip, List.getElem_map] at hkey
  have heq := hinj _ (List.getElem_mem _) _ (List.getElem_mem _) hkey
  exact absurd ((List.Nodup.getElem_inj_iff hnodup).mp heq) hlt.ne

/-- The rows of a uniform response stand in the table. -/
theorem shown_row (hall : ∀ response ∈ raw, tagsFromResults response ≠ []) {response : TimeSeriesServerResponse α} {r : ℕ}
    (hmem : (response, r) ∈ raw.zipIdx) (h : Uniform raw response r) {first : TimeSeriesSeries α}
    {others : List (TimeSeriesSeries α)} {rest : List (List (TimeSeriesSeries α))}
    (hresults : successfulResults response = (first :: others) :: rest) {s : TimeSeriesSeries α} (hs : s ∈ first :: others)
    {row : Row α} (hrow : row ∈ s.values) :
    Shown text (sortedLabels (constructSerieses (constructResults text raw true))) r s row
      (readRow text (sortedLabels (constructSerieses (constructResults text raw true))) response ⟨r, s, row⟩) := by
  have hvalues := List.ne_nil_of_mem hrow
  have hrows : ∃ results ∈ successfulResults response, ∃ s ∈ results, s.values ≠ [] :=
    ⟨_, hresults ▸ List.mem_cons_self, s, hs, hvalues⟩
  obtain ⟨hfields, htags, hkeys⟩ := h.alike first others rest hresults s hs hvalues
  have hfound := h.found hrows
  have hinj : ∀ a ∈ heading response, ∀ b ∈ heading response, Label.key ⟨a, 0, r⟩ = Label.key ⟨b, 0, r⟩ → a = b := by
    intro a ha b hb hkey
    rcases hfound b hb _ (mem_headings hmem ha) hkey with heq | hlt
    · exact congrArg Label.label heq
    · rcases hfound a ha _ (mem_headings hmem hb) hkey.symm with heq | hgt
      · exact (congrArg Label.label heq).symm
      · exact absurd hlt (lt_asymm hgt)
  refine shown_fill (ownCells_perm hresults hfields htags hkeys (h.nodup hrows)) (keys_readCells (h.nodup hrows) hinj) ?_
  intro c hc
  obtain ⟨label, hlabel, heq⟩ := exists_label hc
  rw [heq]
  have hl : (⟨label, 0, r⟩ : Label) ∈ (constructSerieses (constructResults text raw true)).flatMap unsortedLabels :=
    headings_eq text hall ▸ mem_headings hmem hlabel
  obtain ⟨p, hp, hat⟩ := exists_found hl fun l' hl' => hfound label hlabel l' (headings_eq text hall ▸ hl')
  exact ⟨p, _, hp, hat, rfl, rfl⟩

theorem fit_flattened {response : TimeSeriesServerResponse α} {r : ℕ} (h : Uniform raw response r)
    (hcomplete : ∀ results ∈ successfulResults response, ∀ s ∈ results, ∀ row ∈ s.values,
      row.values.length + 1 = s.columns.length) :
    ∀ s ∈ flattened text response r, ∀ row ∈ s.values, row.values.length ≤ (unsortedLabels s).length := by
  intro s hs row hrow
  cases hresults : successfulResults response with
  | nil => exact absurd (flattened_nil hresults ▸ hs) List.not_mem_nil
  | cons results rest =>
    obtain rfl := List.mem_singleton.mp (flattened_cons hresults ▸ hs)
    obtain ⟨s, hs, hmem⟩ := List.mem_flatMap.mp hrow
    obtain ⟨own, hown, rfl⟩ := List.mem_map.mp hmem
    obtain ⟨first, others, rfl⟩ := List.exists_cons_of_ne_nil (List.ne_nil_of_mem hs)
    obtain ⟨hfields, -, hkeys⟩ := h.alike first others rest hresults s hs (List.ne_nil_of_mem hown)
    have hlength := congrArg List.length hkeys
    have hvalues := hcomplete _ (hresults ▸ List.mem_cons_self) s hs own hown
    have hheading : heading response = first.tags.map Prod.fst ++ fields first := by
      unfold heading
      rw [hresults]
    rw [labels_headed text r hresults, hheading, List.length_map, List.length_append, List.length_append, List.length_map]
    have hcolumns : (fields first).length = s.columns.length - 1 := by
      rw [← hfields, fields, List.length_map, List.length_drop]
    simp only [List.length_map, hcolumns] at hlength ⊢
    omega

theorem forall₂_flatMap {β γ δ : Type} {R : γ → δ → Prop} {f : β → List γ} {g : β → List δ} {as : List β}
    (h : ∀ a ∈ as, List.Forall₂ R (f a) (g a)) : List.Forall₂ R (as.flatMap f) (as.flatMap g) := by
  rw [List.flatMap_def, List.flatMap_def]
  refine List.rel_flatten (List.forall₂_map_left_iff.mpr (List.forall₂_map_right_iff.mpr ?_))
  exact List.forall₂_same.mpr h

/-- If every response is uniform, every row stands in the table, and nothing else does. -/
theorem listed_of_uniform (text : String → α) (shiftDate : ℤ → String → String → ℤ) (raw : List (TimeSeriesServerResponse α))
    (hall : ∀ response ∈ raw, tagsFromResults response ≠ [])
    (hcomplete : ∀ response ∈ raw, ∀ results ∈ successfulResults response, ∀ s ∈ results, ∀ row ∈ s.values,
      row.values.length + 1 = s.columns.length)
    (h : ∀ p ∈ raw.zipIdx, Uniform raw p.1 p.2) :
    ∃ labels rows, groupByTimeSeriesTransform text shiftDate raw true = some (labels, rows) ∧ Listed text raw labels rows := by
  have hgrouped : ∀ s ∈ constructSerieses (constructResults text raw true), s.isGroupBy = true := by
    rw [serieses_eq hall]
    intro s hs
    obtain ⟨p, -, hs⟩ := List.mem_flatMap.mp hs
    exact isGroupBy_of_mem_flattened hs
  have hfit : ∀ s ∈ constructSerieses (constructResults text raw true), ∀ row ∈ s.values,
      row.values.length ≤ (unsortedLabels s).length := by
    rw [serieses_eq hall]
    intro s hs
    obtain ⟨p, hp, hs⟩ := List.mem_flatMap.mp hs
    exact fit_flattened (h p hp) (hcomplete p.1 (List.fst_mem_of_mem_zipIdx hp)) s hs
  have hcells : constructCells (constructSerieses (constructResults text raw true)) = some [] := by
    have hnone : (constructSerieses (constructResults text raw true)).filter (!·.isGroupBy) = [] :=
      List.filter_eq_nil_iff.mpr fun s hs => by rw [hgrouped s hs]; exact Bool.false_ne_true
    unfold constructCells
    rw [hnone]
    rfl
  have hshown : List.Forall₂ (fun (i : Input α) out => Shown text
      (sortedLabels (constructSerieses (constructResults text raw true))) i.response i.series i.row out) (inputRows raw)
      ((constructSerieses (constructResults text raw true)).flatMap fun s =>
        s.values.map (tableRow text (sortedLabels (constructSerieses (constructResults text raw true))) s)) := by
    have hsplit : ∀ labels, (constructSerieses (constructResults text raw true)).flatMap
        (fun s => s.values.map (tableRow text labels s)) = raw.zipIdx.flatMap fun (response, r) =>
          (flattened text response r).flatMap fun s => s.values.map (tableRow text labels s) := by
      intro labels
      rw [serieses_eq hall, List.flatMap_assoc]
    rw [hsplit]
    refine forall₂_flatMap ?_
    rintro ⟨response, r⟩ hp
    have huniform := h _ hp
    dsimp only
    cases hresults : successfulResults response with
    | nil =>
      rw [flattened_nil hresults]
      exact .nil
    | cons results rest =>
      have hrest : rest.flatMap (statementRows r) = [] := by
        refine List.flatMap_eq_nil_iff.mpr fun results' hmem => List.flatMap_eq_nil_iff.mpr fun s hs => ?_
        rw [huniform.one results' (by rw [hresults]; exact hmem) s hs]
        rfl
      rw [rows_flattened hresults, List.flatMap_cons, hrest, List.append_nil, List.forall₂_map_right_iff, List.forall₂_same]
      intro i hi
      obtain ⟨s, hs, hi⟩ := List.mem_flatMap.mp hi
      obtain ⟨row, hrow, rfl⟩ := List.mem_map.mp hi
      obtain ⟨first, others, rfl⟩ := List.exists_cons_of_ne_nil (List.ne_nil_of_mem hs)
      exact shown_row hall hp huniform hresults hs hrow
  have : Std.Total fun a b : TimeSeries α => a.time ≤ b.time := ⟨fun a b => le_total a.time b.time⟩
  have : IsTrans (TimeSeries α) fun a b => a.time ≤ b.time := ⟨fun a b c => le_trans⟩
  refine ⟨_, _, ?_, List.pairwise_insertionSort _ _, _, (List.perm_insertionSort _ _).symm, hshown⟩
  unfold groupByTimeSeriesTransform constructTimeSeries
  simp only [hcells, insertGroupByValues_eq hgrouped hfit]
  rfl

/-- The usage of two hosts, grouped by host. -/
def usageByHost : List (TimeSeriesServerResponse String) :=
  [[{ series := some [{ name := "cpu", columns := ["time", "usage"], values := [⟨1, [some "5"]⟩, ⟨3, [some "6"]⟩], tags := [("host", "a")] },
        { name := "cpu", columns := ["time", "usage"], values := [⟨2, [some "7"]⟩], tags := [("host", "b")] }]
      error := none }]]

theorem listed_usageByHost : ∃ labels rows, groupByTimeSeriesTransform id (fun t _ _ => t) usageByHost true =
    some (labels, rows) ∧ Listed id usageByHost labels rows := by
  refine listed_of_uniform id (fun t _ _ => t) usageByHost (by decide) (by decide +kernel) ?_
  intro p hp
  obtain rfl := List.mem_singleton.mp hp
  refine ⟨by decide +kernel, ?_, fun _ => by decide +kernel, fun _ => by decide +kernel⟩
  intro first others rest heq s hs hvalues
  obtain ⟨hhead, -⟩ := List.cons.inj heq
  obtain ⟨rfl, rfl⟩ := List.cons.inj hhead
  clear hvalues
  revert s
  decide +kernel

/-- The usage and the load by host, each asked for by a statement of its own. -/
def usageAndLoad : List (TimeSeriesServerResponse String) :=
  [[{ series := some [{ name := "cpu", columns := ["time", "usage"], values := [⟨1, [some "5"]⟩], tags := [("host", "a")] }], error := none },
    { series := some [{ name := "system", columns := ["time", "load1"], values := [⟨1, [some "2"]⟩], tags := [("host", "a")] }], error := none }]]

/-- Of two rows the table has one. -/
theorem second_statement_lost : (∀ response ∈ usageAndLoad, tagsFromResults response ≠ []) ∧
    (∀ response ∈ usageAndLoad, ∀ results ∈ successfulResults response, ∀ s ∈ results, ∀ row ∈ s.values,
      row.values.length + 1 = s.columns.length) ∧
    ¬ ∃ labels rows, groupByTimeSeriesTransform id (fun t _ _ => t) usageAndLoad true = some (labels, rows) ∧
      Listed id usageAndLoad labels rows := by
  refine ⟨by decide, by decide +kernel, ?_⟩
  rintro ⟨labels, rows, heq, hlisted⟩
  have hresult : groupByTimeSeriesTransform id (fun t _ _ => t) usageAndLoad true =
      some ([⟨"cpu.usage", 0, 0⟩, ⟨"host", 0, 0⟩], [⟨1, [some "5", some "a"]⟩]) := by decide +kernel
  obtain ⟨rfl, rfl⟩ := Prod.mk.inj (Option.some.inj (hresult.symm.trans heq))
  obtain ⟨order, hperm, hshown⟩ := hlisted.shown
  have hlength : (inputRows usageAndLoad).length = 1 := hshown.length_eq.trans hperm.length_eq
  exact absurd hlength (by decide)

end Graphs
end Chronograf
