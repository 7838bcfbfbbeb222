/-
# The sources of imported dashboards

`dashboards/utils/importDashboardMappings.ts`. One pass lists the sources that
the cells of an imported dashboard have, a second one gives each cell the source
that was chosen for its own. Both look at the first query of a cell only, and
one whose source cannot be identified stops them.

Key definitions: `createSourceMappings`, `mapCells`, `ownKey`, `Faithful`, `OneSource`.
Key theorems: `step_ok_iff`, `mapCell_ok_iff`, `mapped_by_own_source_iff`.
-/
import Chronograf.Lib.Checks
import Chronograf.Lib.Objects
import Chronograf.TempVars.Templates

namespace Chronograf
namespace ImportMappings

/-! ### Cells and sources -/

/-- A query; what is not its source is in `rest`. -/
structure Query (ρ : Type) where
  source : Option String
  rest : List (String × ρ)
  deriving DecidableEq

structure Cell (ρ σ : Type) where
  i : String
  name : String
  queries : List (Query ρ)
  rest : σ
  deriving DecidableEq

structure CellInfo where
  id : String
  name : String
  deriving DecidableEq

structure ImportedSourceInfo where
  name : String
  link : String
  deriving DecidableEq

structure SourceInfo where
  name : String
  id : String
  link : String
  deriving DecidableEq

abbrev ImportedSources := Props ImportedSourceInfo

variable {ρ σ : Type}

/-- `_.isEmpty(query)`. -/
def Query.isEmpty (q : Query ρ) : Bool := q.source.isNone && q.rest.isEmpty

def dynamicSource : String := "dynamic"

def dynamicSourceInfo : SourceInfo := ⟨"Dynamic Source", dynamicSource, ""⟩

/-- The first match of `/sources\/(\d+)/`: the digits after the first `sources/` that has any. -/
def sourceID : List Char → Option (List Char)
  | [] => none
  | c :: cs =>
    let digits := if "sources/".toList.isPrefixOf (c :: cs) then ((c :: cs).drop "sources/".length).takeWhile Char.isDigit else []
    if digits = [] then sourceID cs else some digits

def getSourceIDFromLink (sourceLink : String) : Except String String :=
  match sourceID sourceLink.toList with
  | some digits => .ok (String.ofList digits)
  | none => .error "TypeError"

/-- `_.findKey`. -/
def findKey (importedSources : ImportedSources) (sourceLink : String) : Option String :=
  ((importedSources.ordered Templates.arrayIndex).find? fun e => e.2.link = sourceLink).map Prod.fst

/-- An ID that is not empty, from the table or else from the link. -/
def getImportedSourceID (importedSources : ImportedSources) (sourceLink : String) : Except String (Option String) :=
  match (findKey importedSources sourceLink).filter (· ≠ "") with
  | some importedSourceID => .ok (some importedSourceID)
  | none => do
    let sourceLinkSID ← getSourceIDFromLink sourceLink
    return if sourceLinkSID = "" then none else some sourceLinkSID

/-! ### The first pass -/

structure State where
  sourcesCells : Props (List CellInfo)
  sourceMappings : Props SourceInfo
  cellsWithNoSource : List CellInfo

/-- `acc[importedSourceID].push(cellInfo)`, where an inherited property is no list. -/
def pushCell (acc : Props (List CellInfo)) (importedSourceID : String) (cellInfo : CellInfo) : Except String (Props (List CellInfo)) :=
  match acc.get? importedSourceID with
  | some cells => .ok (acc.set importedSourceID (cells ++ [cellInfo]))
  | none => if importedSourceID ∈ Props.inherited then .error "TypeError" else .ok (acc.set importedSourceID [cellInfo])

def step (sourceInfo : SourceInfo) (importedSources : ImportedSources) (s : State) (c : Cell ρ σ) : Except String State :=
  match c.queries with
  | [] => .ok s
  | query :: _ =>
    let sourceLink := query.source.getD ""
    if query.isEmpty then .ok s
    else if sourceLink = "" then .ok { s with cellsWithNoSource := s.cellsWithNoSource ++ [⟨c.i, c.name⟩] }
    else do
      match ← getImportedSourceID importedSources sourceLink with
      | none => return s
      | some importedSourceID => do
        let sourcesCells ← pushCell s.sourcesCells importedSourceID ⟨c.i, c.name⟩
        return { s with sourcesCells := sourcesCells, sourceMappings := s.sourceMappings.set importedSourceID sourceInfo }

/-- The cells of each source, and the source that each is mapped to at first. -/
def createSourceMappings (sourceInfo : SourceInfo) (cells : List (Cell ρ σ)) (importedSources : ImportedSources) :
    Except String (Props (List CellInfo) × Props SourceInfo) := do
  let s ← cells.foldlM (step sourceInfo importedSources) ⟨.empty, .empty, []⟩
  return if s.cellsWithNoSource = [] then (s.sourcesCells, s.sourceMappings)
    else (s.sourcesCells.set dynamicSource s.cellsWithNoSource, s.sourceMappings.set dynamicSource dynamicSourceInfo)

/-! ### The second pass -/

/-- Every query of the cell gets the link; an inherited property has none. -/
def mapQueriesInCell (sourceMappings : Props SourceInfo) (cell : Cell ρ σ) (sourceID : String) : Except String (Cell ρ σ) :=
  match sourceMappings.get? sourceID with
  | some info => .ok { cell with queries := cell.queries.map fun q => { q with source := some info.link } }
  | none =>
    if sourceID ∈ Props.inherited then .ok { cell with queries := cell.queries.map fun q => { q with source := none } }
    else .error "TypeError"

def mapCell (sourceMappings : Props SourceInfo) (importedSources : ImportedSources) (c : Cell ρ σ) : Except String (Cell ρ σ) :=
  match c.queries with
  | [] => .ok c
  | query :: _ =>
    let sourceLink := query.source.getD ""
    if query.isEmpty then .ok c
    else if sourceLink = "" then mapQueriesInCell sourceMappings c dynamicSource
    else do
      match ← getImportedSourceID importedSources sourceLink with
      | none => return c
      | some importedSourceID => mapQueriesInCell sourceMappings c importedSourceID

def mapCells (cells : List (Cell ρ σ)) (sourceMappings : Props SourceInfo) (importedSources : ImportedSources) :
    Except String (List (Cell ρ σ)) :=
  cells.mapM (mapCell sourceMappings importedSources)

/-! ### The own source of a query -/

/-- The key of a query's own source: the dynamic one if it has none, the one in
the table with its link, or the one that its link names. -/
def ownKey (importedSources : ImportedSources) (q : Query ρ) : Option String :=
  if q.source.getD "" = "" then some dynamicSource
  else ((findKey importedSources (q.source.getD "")).filter (· ≠ "")).or ((sourceID (q.source.getD "").toList).map String.ofList)

/-- Only the source has changed: to the link that its own one is mapped to, or
not at all if it cannot be identified. -/
def Mapped (importedSources : ImportedSources) (mappings : Props SourceInfo) (q q' : Query ρ) : Prop :=
  q'.rest = q.rest ∧
  match ownKey importedSources q with
  | some k => ∃ info, mappings.get? k = some info ∧ q'.source = some info.link
  | none => q'.source = q.source

def MappedCell (importedSources : ImportedSources) (mappings : Props SourceInfo) (c c' : Cell ρ σ) : Prop :=
  c' = { c with queries := c'.queries } ∧ List.Forall₂ (Mapped importedSources mappings) c.queries c'.queries

/-- Both passes go through, with any mappings of the sources of the first one,
and map every query by its own source. -/
def Faithful (sourceInfo : SourceInfo) (cells : List (Cell ρ σ)) (importedSources : ImportedSources) : Prop :=
  ∃ sourcesCells sourceMappings, createSourceMappings sourceInfo cells importedSources = .ok (sourcesCells, sourceMappings) ∧
    ∀ mappings : Props SourceInfo, (∀ k, (sourceMappings.get? k).isSome → (mappings.get? k).isSome) →
      ∃ cells', mapCells cells mappings importedSources = .ok cells' ∧
        List.Forall₂ (MappedCell importedSources mappings) cells cells'

/-- The queries of the cell have one source that can be identified and is no
inherited property, and the first one is not an empty object. -/
def OneSource (importedSources : ImportedSources) (c : Cell ρ σ) : Prop :=
  ∀ first ∈ c.queries.head?, first.isEmpty = false ∧
    ∃ k, k ∉ Props.inherited ∧ ∀ q ∈ c.queries, ownKey importedSources q = some k

/-! ### Identified sources -/

variable {sourceInfo : SourceInfo} {importedSources : ImportedSources} {mappings : Props SourceInfo} {s s' : State}
  {c : Cell ρ σ} {q : Query ρ} {qs : List (Query ρ)} {k : String}

theorem sourceID_ne_nil : ∀ {cs digits : List Char}, sourceID cs = some digits → digits ≠ []
  | [], _, h => nomatch h
  | c :: cs, digits, h => by
    rw [sourceID] at h
    split_ifs at h with hprefix hdigits hnil
    · exact sourceID_ne_nil h
    · cases h
      exact hdigits
    · exact sourceID_ne_nil h
    · exact absurd rfl hnil

/-- Where a query has a link, the key is found or the link cannot be identified. -/
theorem getImportedSourceID_eq (h : q.source.getD "" ≠ "") : getImportedSourceID importedSources (q.source.getD "") =
    match ownKey importedSources q with
    | some k => .ok (some k)
    | none => .error "TypeError" := by
  rw [getImportedSourceID, ownKey, if_neg h]
  cases (findKey importedSources (q.source.getD "")).filter (· ≠ "") with
  | some k => rfl
  | none =>
    rw [Option.none_or, getSourceIDFromLink]
    cases hid : sourceID (q.source.getD "").toList with
    | none => rfl
    | some digits =>
      have hne : String.ofList digits ≠ "" := fun heq => sourceID_ne_nil hid (by simpa using congrArg String.toList heq)
      show Except.ok (if String.ofList digits = "" then none else some (String.ofList digits)) = _
      rw [if_neg hne]
      rfl

/-- A cell whose first query is no empty object, in the first pass. -/
theorem step_eq (hc : c.queries = q :: qs) (hq : q.isEmpty = false) : step sourceInfo importedSources s c =
    if q.source.getD "" = "" then .ok { s with cellsWithNoSource := s.cellsWithNoSource ++ [⟨c.i, c.name⟩] }
    else match ownKey importedSources q with
      | some k => (pushCell s.sourcesCells k ⟨c.i, c.name⟩).map fun sourcesCells =>
        { s with sourcesCells := sourcesCells, sourceMappings := s.sourceMappings.set k sourceInfo }
      | none => .error "TypeError" := by
  rw [step, hc]
  dsimp only
  rw [hq, if_neg Bool.false_ne_true]
  split_ifs with hlink
  · rfl
  · rw [getImportedSourceID_eq hlink]
    cases ownKey importedSources q with
    | none => rfl
    | some k => cases pushCell s.sourcesCells k ⟨c.i, c.name⟩ <;> rfl

/-- The same cell in the second pass. -/
theorem mapCell_eq (hc : c.queries = q :: qs) (hq : q.isEmpty = false) : mapCell mappings importedSources c =
    match ownKey importedSources q with
    | some k => mapQueriesInCell mappings c k
    | none => .error "TypeError" := by
  rw [mapCell, hc]
  dsimp only
  rw [hq, if_neg Bool.false_ne_true]
  split_ifs with hlink
  · rw [ownKey, if_pos hlink]
  · rw [getImportedSourceID_eq hlink]
    cases ownKey importedSources q <;> rfl

theorem step_skip (h : ∀ first ∈ c.queries.head?, first.isEmpty = true) : step sourceInfo importedSources s c = .ok s := by
  rw [step]
  split
  · rfl
  · next q qs hc => exact if_pos (h q (by rw [hc]; rfl))

theorem mapCell_skip (h : ∀ first ∈ c.queries.head?, first.isEmpty = true) : mapCell mappings importedSources c = .ok c := by
  rw [mapCell]
  split
  · rfl
  · next q qs hc => exact if_pos (h q (by rw [hc]; rfl))

/-! ### The first pass -/

/-- No inherited property has become an own one. -/
def Plain (s : State) : Prop := ∀ k ∈ Props.inherited, s.sourcesCells.get? k = none

/-- The key is one of those that are mapped. -/
def Produced (k : String) (s : State) : Prop :=
  (s.sourceMappings.get? k).isSome ∨ k = dynamicSource ∧ s.cellsWithNoSource ≠ []

/-- The first pass can go on with the cell. -/
def Steppable (importedSources : ImportedSources) (c : Cell ρ σ) : Prop :=
  ∀ first ∈ c.queries.head?, first.isEmpty = false → ∃ k, ownKey importedSources first = some k ∧ k ∉ Props.inherited

theorem dynamicSource_plain : dynamicSource ∉ Props.inherited := by decide

theorem pushCell_ok_iff (hs : Plain s) (k : String) (info : CellInfo) :
    (∃ acc, pushCell s.sourcesCells k info = .ok acc) ↔ k ∉ Props.inherited := by
  rw [pushCell]
  cases hget : s.sourcesCells.get? k with
  | some cells => exact iff_of_true ⟨_, rfl⟩ fun hk => nomatch (hs k hk).symm.trans hget
  | none =>
    dsimp only
    split_ifs with hk
    · exact iff_of_false nofun (not_not.mpr hk)
    · exact iff_of_true ⟨_, rfl⟩ hk

theorem get?_pushCell {acc acc' : Props (List CellInfo)} {info : CellInfo} (h : pushCell acc k info = .ok acc') :
    ∃ cells, acc' = acc.set k cells := by
  rw [pushCell] at h
  split at h
  · cases h
    exact ⟨_, rfl⟩
  · split_ifs at h
    cases h
    exact ⟨_, rfl⟩

/-- What one step does: nothing, or it notes a cell without a source, or it notes
one with the key of its first query. -/
theorem step_cases (h : step sourceInfo importedSources s c = .ok s') :
    (s' = s ∧ ∀ first ∈ c.queries.head?, first.isEmpty = true) ∨
    (s' = { s with cellsWithNoSource := s.cellsWithNoSource ++ [⟨c.i, c.name⟩] } ∧
      ∃ first ∈ c.queries.head?, ownKey importedSources first = some dynamicSource) ∨
    ∃ first ∈ c.queries.head?, ∃ k acc, ownKey importedSources first = some k ∧
      pushCell s.sourcesCells k ⟨c.i, c.name⟩ = .ok acc ∧
      s' = { s with sourcesCells := acc, sourceMappings := s.sourceMappings.set k sourceInfo } := by
  by_cases hskip : ∀ first ∈ c.queries.head?, first.isEmpty = true
  · rw [step_skip hskip, Except.ok.injEq] at h
    exact .inl ⟨h.symm, hskip⟩
  · push Not at hskip
    obtain ⟨q, hq, hempty⟩ := hskip
    obtain ⟨qs, hc⟩ := List.head?_eq_some_iff.mp hq
    rw [step_eq hc (Bool.eq_false_iff.mpr hempty)] at h
    split_ifs at h with hlink
    · cases h
      exact .inr (.inl ⟨rfl, q, hq, if_pos hlink⟩)
    · split at h
      · next k hk =>
        cases hpush : pushCell s.sourcesCells k ⟨c.i, c.name⟩ with
        | error e =>
          rw [hpush] at h
          cases h
        | ok acc =>
          rw [hpush] at h
          cases h
          exact .inr (.inr ⟨q, hq, k, acc, hk, hpush, rfl⟩)
      · cases h

theorem Plain.step (hs : Plain s) (h : step sourceInfo importedSources s c = .ok s') : Plain s' := by
  rcases step_cases h with ⟨rfl, _⟩ | ⟨rfl, _⟩ | ⟨q, _, k, acc, _, hpush, rfl⟩
  · exact hs
  · exact hs
  · have hk := (pushCell_ok_iff hs k _).mp ⟨acc, hpush⟩
    obtain ⟨cells, rfl⟩ := get?_pushCell hpush
    intro k' hk'
    rw [Props.get?_set, if_neg fun heq : k' = k => hk (heq ▸ hk')]
    exact hs k' hk'

theorem step_ok_iff (hs : Plain s) : (∃ s', step sourceInfo importedSources s c = .ok s') ↔ Steppable importedSources c := by
  constructor
  · rintro ⟨s', h⟩ first hfirst hempty
    rcases step_cases h with ⟨_, hskip⟩ | ⟨_, q, hq, hown⟩ | ⟨q, hq, k, acc, hown, hpush, _⟩
    · exact absurd (hskip first hfirst) (Bool.eq_false_iff.mp hempty)
    · obtain rfl := Option.some.inj (hfirst.symm.trans hq)
      exact ⟨_, hown, dynamicSource_plain⟩
    · obtain rfl := Option.some.inj (hfirst.symm.trans hq)
      exact ⟨k, hown, (pushCell_ok_iff hs k _).mp ⟨acc, hpush⟩⟩
  · intro h
    by_cases hskip : ∀ first ∈ c.queries.head?, first.isEmpty = true
    · exact ⟨s, step_skip hskip⟩
    · push Not at hskip
      obtain ⟨q, hq, hempty⟩ := hskip
      obtain ⟨qs, hc⟩ := List.head?_eq_some_iff.mp hq
      obtain ⟨k, hown, hk⟩ := h q hq (Bool.eq_false_iff.mpr hempty)
      rw [step_eq hc (Bool.eq_false_iff.mpr hempty), hown]
      split_ifs
      · exact ⟨_, rfl⟩
      · obtain ⟨acc, hacc⟩ := (pushCell_ok_iff hs k ⟨c.i, c.name⟩).mpr hk
        dsimp only
        rw [hacc]
        exact ⟨_, rfl⟩

theorem Produced.step {k : String} (hk : Produced k s) (h : step sourceInfo importedSources s c = .ok s') : Produced k s' := by
  rcases step_cases h with ⟨rfl, _⟩ | ⟨rfl, _⟩ | ⟨q, _, k', acc, _, _, rfl⟩
  · exact hk
  · exact hk.imp_right fun ⟨heq, _⟩ => ⟨heq, List.append_ne_nil_of_right_ne_nil _ (List.cons_ne_nil _ _)⟩
  · refine hk.imp_left fun hsome => ?_
    rw [Props.get?_set]
    split_ifs
    · rfl
    · exact hsome

/-- The key of a cell's first query is noted. -/
theorem step_produces (h : step sourceInfo importedSources s c = .ok s') :
    ∀ first ∈ c.queries.head?, first.isEmpty = false → ∃ k, ownKey importedSources first = some k ∧ Produced k s' := by
  intro first hfirst hempty
  rcases step_cases h with ⟨_, hskip⟩ | ⟨rfl, q, hq, hown⟩ | ⟨q, hq, k, acc, hown, _, rfl⟩
  · exact absurd (hskip first hfirst) (Bool.eq_false_iff.mp hempty)
  · obtain rfl := Option.some.inj (hfirst.symm.trans hq)
    exact ⟨_, hown, .inr ⟨rfl, List.append_ne_nil_of_right_ne_nil _ (List.cons_ne_nil _ _)⟩⟩
  · obtain rfl := Option.some.inj (hfirst.symm.trans hq)
    refine ⟨k, hown, .inl ?_⟩
    rw [Props.get?_set, if_pos rfl]
    rfl

theorem get?_sourceMappings_of_produced {k : String} (h : Produced k s) :
    ((if s.cellsWithNoSource = [] then (s.sourcesCells, s.sourceMappings)
      else (s.sourcesCells.set dynamicSource s.cellsWithNoSource, s.sourceMappings.set dynamicSource dynamicSourceInfo)).2.get? k).isSome := by
  split_ifs with hnone
  · exact h.resolve_right fun h => h.2 hnone
  · rw [Props.get?_set]
    split_ifs with hk
    · rfl
    · exact h.resolve_right fun h => hk h.1

/-- The first pass goes through if and only if it can with every cell, and then
every key of a first query is mapped. -/
theorem createSourceMappings_ok_iff (sourceInfo : SourceInfo) (cells : List (Cell ρ σ)) :
    (∃ r, createSourceMappings sourceInfo cells importedSources = .ok r) ↔ ∀ c ∈ cells, Steppable importedSources c := by
  have hplain : Plain ⟨.empty, .empty, []⟩ := fun _ _ => rfl
  rw [← Except.foldlM_ok_iff (F := step sourceInfo importedSources) (fun s c hs => step_ok_iff hs) (fun s c s' hs h => hs.step h)
    cells _ hplain, createSourceMappings]
  constructor
  · rintro ⟨r, h⟩
    obtain ⟨s, hs, _⟩ := Except.bind_ok_iff.mp h
    exact ⟨s, hs⟩
  · rintro ⟨s, hs⟩
    exact ⟨_, Except.bind_ok_iff.mpr ⟨s, hs, rfl⟩⟩

theorem createSourceMappings_produces {cells : List (Cell ρ σ)} {sourcesCells : Props (List CellInfo)} {sourceMappings : Props SourceInfo}
    (h : createSourceMappings sourceInfo cells importedSources = .ok (sourcesCells, sourceMappings)) (hc : c ∈ cells) :
    ∀ first ∈ c.queries.head?, first.isEmpty = false →
      ∃ k, ownKey importedSources first = some k ∧ (sourceMappings.get? k).isSome := by
  obtain ⟨s, hs, heq⟩ := Except.bind_ok_iff.mp h
  have hmarks := Except.foldlM_marks (F := step sourceInfo importedSources)
    (P := fun (c : Cell ρ σ) s => ∀ first ∈ c.queries.head?, first.isEmpty = false →
      ∃ k, ownKey importedSources first = some k ∧ Produced k s) (fun s c s' h => step_produces h)
    (fun s c d s' hc h first hfirst hempty => by
      obtain ⟨k, hown, hk⟩ := hc first hfirst hempty
      exact ⟨k, hown, hk.step h⟩) hs c hc
  intro first hfirst hempty
  obtain ⟨k, hown, hk⟩ := hmarks first hfirst hempty
  have hsome := get?_sourceMappings_of_produced hk
  have heq' := (Except.ok.inj heq)
  rw [heq'] at hsome
  exact ⟨k, hown, hsome⟩

/-! ### The second pass -/

/-- A cell of one source is mapped as a whole. -/
theorem mapCell_faithful (hone : OneSource importedSources c)
    (hmapped : ∀ first ∈ c.queries.head?, first.isEmpty = false →
      ∃ k, ownKey importedSources first = some k ∧ (mappings.get? k).isSome) :
    ∃ c', mapCell mappings importedSources c = .ok c' ∧ MappedCell importedSources mappings c c' := by
  cases hc : c.queries with
  | nil =>
    refine ⟨c, mapCell_skip (by rw [hc]; nofun), rfl, ?_⟩
    rw [hc]
    exact .nil
  | cons q qs =>
    have hq : q ∈ c.queries.head? := by
      rw [hc]
      rfl
    obtain ⟨hempty, k, _, hall⟩ := hone q hq
    have hown := hall q (hc ▸ List.mem_cons_self)
    obtain ⟨k', hown', hsome⟩ := hmapped q hq hempty
    obtain rfl := Option.some.inj (hown.symm.trans hown')
    obtain ⟨info, hinfo⟩ := Option.isSome_iff_exists.mp hsome
    refine ⟨{ c with queries := c.queries.map fun q => { q with source := some info.link } }, ?_, rfl, ?_⟩
    · rw [mapCell_eq hc hempty, hown]
      dsimp only
      rw [mapQueriesInCell, hinfo]
    · rw [List.forall₂_map_right_iff, List.forall₂_same]
      intro q' hq'
      refine ⟨rfl, ?_⟩
      rw [hall q' hq']
      exact ⟨info, hinfo, rfl⟩

/-- A mapping that tells the key `k` from every other one, and from a link. -/
theorem exists_telling (sourceMappings : Props SourceInfo) (k : String) (source : Option String) :
    ∃ mappings : Props SourceInfo, ∃ info, (∀ k, (sourceMappings.get? k).isSome → (mappings.get? k).isSome) ∧
      mappings.get? k = some info ∧ some info.link ≠ source ∧
      ∀ k', k' ≠ k → ∀ info', mappings.get? k' = some info' → info'.link ≠ info.link := by
  refine ⟨(sourceMappings.map fun _ => ⟨"", "", ""⟩).set k ⟨"", "", source.getD "" ++ "x"⟩, ⟨"", "", source.getD "" ++ "x"⟩, ?_, ?_, ?_, ?_⟩
  · intro k' hk'
    rw [Props.get?_set, Props.get?_map]
    split_ifs
    · rfl
    · rwa [Option.isSome_map]
  · rw [Props.get?_set, if_pos rfl]
  · intro heq
    have hlength := congrArg (fun s : Option String => (s.getD "").length) heq
    simp at hlength
  · intro k' hne info' hinfo' heq
    rw [Props.get?_set, if_neg hne, Props.get?_map] at hinfo'
    obtain ⟨_, _, rfl⟩ := Option.map_eq_some_iff.mp hinfo'
    have hlength := congrArg String.length heq
    have hx : "x".length = 1 := rfl
    simp at hlength
    omega

theorem oneSource_of_faithful (sourceMappings : Props SourceInfo) (hstep : Steppable importedSources c)
    (h : ∀ mappings : Props SourceInfo, (∀ k, (sourceMappings.get? k).isSome → (mappings.get? k).isSome) →
      ∃ c', mapCell mappings importedSources c = .ok c' ∧ MappedCell importedSources mappings c c') :
    OneSource importedSources c := by
  intro q hq
  obtain ⟨qs, hc⟩ := List.head?_eq_some_iff.mp hq
  -- an empty first query keeps having no source
  have hempty : q.isEmpty = false := by
    by_contra hempty
    have hnone : q.source = none := by
      simp only [Query.isEmpty, Bool.not_eq_false, Bool.and_eq_true, Option.isNone_iff_eq_none] at hempty
      exact hempty.1
    obtain ⟨c', hmap, _, hqueries⟩ := h sourceMappings fun _ => id
    have hskip : ∀ first ∈ c.queries.head?, first.isEmpty = true := fun first hfirst =>
      Option.some.inj (hfirst.symm.trans hq) ▸ Bool.not_eq_false _ ▸ hempty
    rw [mapCell_skip hskip, Except.ok.injEq] at hmap
    rw [← hmap, List.forall₂_same] at hqueries
    obtain ⟨_, hmapped⟩ := hqueries q (hc ▸ List.mem_cons_self)
    rw [ownKey, if_pos (by rw [hnone]; rfl)] at hmapped
    obtain ⟨info, _, hsource⟩ := hmapped
    rw [hnone] at hsource
    cases hsource
  obtain ⟨k, hown, hk⟩ := hstep q hq hempty
  refine ⟨hempty, k, hk, fun q' hq' => ?_⟩
  -- a query of another source, or of none that is known, gets the link of the first one
  obtain ⟨mappings, info, hcovers, hinfo, hlink, hother⟩ := exists_telling sourceMappings k q'.source
  obtain ⟨c', hmap, _, hqueries⟩ := h mappings hcovers
  rw [mapCell_eq hc hempty, hown] at hmap
  dsimp only at hmap
  rw [mapQueriesInCell, hinfo, Except.ok.injEq] at hmap
  rw [← hmap, List.forall₂_map_right_iff, List.forall₂_same] at hqueries
  obtain ⟨_, hmapped⟩ := hqueries q' hq'
  cases hown' : ownKey importedSources q' with
  | none =>
    rw [hown'] at hmapped
    exact absurd hmapped hlink
  | some k' =>
    rw [hown'] at hmapped
    obtain ⟨info', hinfo', hsource⟩ := hmapped
    by_contra hne
    exact hother k' (fun heq => hne (heq ▸ rfl)) info' hinfo' (Option.some.inj hsource).symm

/-- Every query is mapped by its own source if and only if every cell has one source. -/
theorem mapped_by_own_source_iff (sourceInfo : SourceInfo) (cells : List (Cell ρ σ)) (importedSources : ImportedSources) :
    Faithful sourceInfo cells importedSources ↔ ∀ c ∈ cells, OneSource importedSources c := by
  constructor
  · rintro ⟨sourcesCells, sourceMappings, hcreate, hmap⟩ c hc
    refine oneSource_of_faithful sourceMappings ((createSourceMappings_ok_iff sourceInfo cells).mp ⟨_, hcreate⟩ c hc) fun mappings hcovers => ?_
    exact Except.mapM_forall₂_iff.mp (hmap mappings hcovers) c hc
  · intro h
    have hstep : ∀ c ∈ cells, Steppable importedSources c := fun c hc first hfirst _ => by
      obtain ⟨_, k, hk, hall⟩ := h c hc first hfirst
      exact ⟨k, hall first (List.mem_of_mem_head? hfirst), hk⟩
    obtain ⟨⟨sourcesCells, sourceMappings⟩, hcreate⟩ := (createSourceMappings_ok_iff sourceInfo cells).mpr hstep
    refine ⟨sourcesCells, sourceMappings, hcreate, fun mappings hcovers => Except.mapM_forall₂_iff.mpr fun c hc => ?_⟩
    refine mapCell_faithful (h c hc) fun first hfirst hempty => ?_
    obtain ⟨k, hown, hsome⟩ := createSourceMappings_produces hcreate hc first hfirst hempty
    exact ⟨k, hown, hcovers k hsome⟩

/-- The link of the query names no source, and the first pass throws. -/
theorem unidentified_throws : ¬ ∀ (sourceInfo : SourceInfo) (cells : List (Cell String Unit)) (importedSources : ImportedSources),
    Faithful sourceInfo cells importedSources := by
  intro h
  obtain ⟨sourcesCells, sourceMappings, hcreate, _⟩ :=
    h ⟨"influx", "1", "/chronograf/v1/sources/1"⟩ [⟨"c1", "cell", [⟨some "my influx", [("query", "SHOW DATABASES")]⟩], ()⟩] .empty
  have hstep := (createSourceMappings_ok_iff _ _).mp ⟨_, hcreate⟩ _ List.mem_cons_self ⟨some "my influx", [("query", "SHOW DATABASES")]⟩ rfl rfl
  obtain ⟨k, hown, _⟩ := hstep
  have hnone : ownKey (ρ := String) .empty ⟨some "my influx", [("query", "SHOW DATABASES")]⟩ = none := by decide +kernel
  rw [hnone] at hown
  cases hown

end ImportMappings
end Chronograf
