/-
# Encoding a dashboard and decoding it

The decoder fills in the defaults of a dashboard and moves the time shifts out
of the query configurations, which are not stored (`withDefaults`). Beyond that
it loses the label, prefix and suffix of an axis without bounds and a range
without width, and nothing else. Of a dashboard that was decoded, encoding and
decoding it once more only loses the time shifts, which the encoder looks for
where the decoder does not put them.

Key definitions: `withDefaults`, `rereadCell`, `withoutShifts`.
Key theorems: `round_trip_iff`, `rereadCell_unmarshalCell`.
-/
import Chronograf.Bolt.Internal
import Chronograf.Server.DashboardRequests

namespace Chronograf

/-! ### The defaults -/

def Axis.withDefaults (r : Axis) : Axis :=
  { r with
    base := if r.base = "" then "10" else r.base
    scale := if r.scale = "" then "linear" else r.scale }

/-- The configuration is derived from the command; its shifts are the query's. -/
def DashboardQuery.withDefaults (q : DashboardQuery) : DashboardQuery :=
  { q with queryConfig := ⟨[], []⟩, shifts := q.queryConfig.shifts }

def DashboardCell.withDefaults (c : DashboardCell) : DashboardCell :=
  { c with
    queries := c.queries.map DashboardQuery.withDefaults
    axes := c.axes.map fun (a, r) => (a, r.withDefaults)
    type := if c.type = "" then "line" else c.type }

/-- The dashboard as the decoder documents that it comes back. -/
def Dashboard.withDefaults (d : Dashboard) : Dashboard := { d with cells := d.cells.map DashboardCell.withDefaults }

/-! ### What is kept -/

/-- Without bounds, the axis has nothing else to show but base and scale. -/
def Axis.Kept (r : Axis) : Prop := r.bounds = [] → r.label = "" ∧ r.pre = "" ∧ r.suffix = ""

/-- If the query has a range, it has a width. -/
def DashboardQuery.Kept (q : DashboardQuery) : Prop := ∀ r, q.range = some r → r.upper ≠ r.lower

structure DashboardCell.Kept (c : DashboardCell) : Prop where
  queries : ∀ q ∈ c.queries, q.Kept
  axes : ∀ a ∈ c.axes, a.2.Kept

namespace Internal

theorem round_trip_axis_iff (r : Axis) : unmarshalAxis r = r.withDefaults ↔ r.Kept := by
  unfold unmarshalAxis Axis.withDefaults Axis.Kept
  by_cases hb : r.bounds = []
  · simp only [hb, ne_eq, not_true, if_false, true_imp_iff, Axis.mk.injEq, true_and, and_true]
    constructor
    · rintro ⟨hl, hp, hs⟩
      exact ⟨hl.symm, hp.symm, hs.symm⟩
    · rintro ⟨hl, hp, hs⟩
      exact ⟨hl.symm, hp.symm, hs.symm⟩
  · simp [hb]

theorem round_trip_query_iff (q : DashboardQuery) : unmarshalQuery (marshalQuery q) = q.withDefaults ↔ q.Kept := by
  unfold unmarshalQuery marshalQuery DashboardQuery.withDefaults DashboardQuery.Kept
  cases hr : q.range with
  | none => simp
  | some r =>
    simp only [Option.getD_some, DashboardQuery.mk.injEq, true_and, and_true, Option.some.injEq, forall_eq']
    by_cases hw : r.upper = r.lower <;> simp [hw]

theorem round_trip_cell_iff (c : Chronograf.DashboardCell) :
    unmarshalCell (marshalCell c) = c.withDefaults ↔ c.Kept := by
  have hqueries : (c.queries.map marshalQuery).map unmarshalQuery = c.queries.map DashboardQuery.withDefaults ↔
      ∀ q ∈ c.queries, q.Kept := by
    rw [List.map_map, List.map_inj_left]
    exact forall₂_congr fun q _ => round_trip_query_iff q
  have haxes : (c.axes.map fun (a, r) => (a, unmarshalAxis r)) = (c.axes.map fun (a, r) => (a, r.withDefaults)) ↔
      ∀ a ∈ c.axes, a.2.Kept := by
    rw [List.map_inj_left]
    refine forall₂_congr fun a _ => ?_
    rw [Prod.mk.injEq, eq_self_iff_true, true_and]
    exact round_trip_axis_iff a.2
  have hcell : c.Kept ↔ (∀ q ∈ c.queries, q.Kept) ∧ ∀ a ∈ c.axes, a.2.Kept :=
    ⟨fun h => ⟨h.queries, h.axes⟩, fun h => ⟨h.1, h.2⟩⟩
  rw [hcell, ← hqueries, ← haxes]
  constructor
  · exact fun h => ⟨congrArg Chronograf.DashboardCell.queries h, congrArg Chronograf.DashboardCell.axes h⟩
  · rintro ⟨hq, ha⟩
    have hread : unmarshalCell (marshalCell c) = { c.withDefaults with
        queries := (c.queries.map marshalQuery).map unmarshalQuery
        axes := c.axes.map fun (a, r) => (a, unmarshalAxis r) } := rfl
    rw [hread, hq, ha]
    rfl

/-- A dashboard comes back as the decoder documents if and only if every axis
without bounds is blank and every range has a width. -/
theorem round_trip_iff (d : Chronograf.Dashboard) :
    unmarshalDashboard (marshalDashboard d) = d.withDefaults ↔ ∀ c ∈ d.cells, c.Kept := by
  have hcells : (d.cells.map marshalCell).map unmarshalCell = d.cells.map DashboardCell.withDefaults ↔
      ∀ c ∈ d.cells, c.Kept := by
    rw [List.map_map, List.map_inj_left]
    exact forall₂_congr fun c _ => round_trip_cell_iff c
  rw [← hcells]
  simp [unmarshalDashboard, marshalDashboard, Chronograf.Dashboard.withDefaults]

end Internal

/-- A dashboard of one cell. Its y axis has a label and no bounds. -/
def exampleLabelled : Dashboard where
  id := 1
  cells := [{
    id := "c1", x := 0, y := 0, w := 4, h := 4, name := "oven"
    queries := [⟨"SELECT \"degrees\" FROM \"oven\"", "", none, ⟨[], []⟩, "", []⟩]
    axes := [("y", ⟨[], "celsius", "", "", "10", "linear"⟩)]
    type := "line"
    cellColors := []
    legend := ⟨"", ""⟩
    tableOptions := ⟨false, ⟨"", "", false⟩, "", false⟩
    fieldOptions := []
    timeFormat := ""
    decimalPlaces := ⟨true, 2⟩ }]
  templates := []
  name := "kitchen"
  organization := "default"

namespace Internal

/-- A valid dashboard, of which the label of an axis does not come back. -/
theorem round_trip_loses_label :
    Server.validDashboardRequest exampleLabelled "default" = .ok exampleLabelled ∧
    unmarshalDashboard (marshalDashboard exampleLabelled) ≠ exampleLabelled.withDefaults ∧
    (unmarshalDashboard (marshalDashboard exampleLabelled)).cells.map (fun c => c.axes) =
      [[("y", ⟨[], "", "", "", "10", "linear"⟩)]] := by
  exact ⟨rfl, by decide, rfl⟩

/-! ### Reading again what was read -/

/-- What is read of a cell that is stored. -/
def rereadCell (c : Chronograf.DashboardCell) : Chronograf.DashboardCell := unmarshalCell (marshalCell c)

end Internal

/-- The query without its time shifts. -/
def DashboardQuery.withoutShifts (q : DashboardQuery) : DashboardQuery := { q with shifts := [] }

/-- The cell without the time shifts of its queries. -/
def DashboardCell.withoutShifts (c : DashboardCell) : DashboardCell :=
  { c with queries := c.queries.map DashboardQuery.withoutShifts }

/-- No query of the cell has time shifts. -/
def DashboardCell.NoShifts (c : DashboardCell) : Prop := ∀ q ∈ c.queries, q.shifts = []

instance (c : DashboardCell) : Decidable c.NoShifts :=
  inferInstanceAs (Decidable (∀ q ∈ c.queries, q.shifts = []))

theorem DashboardCell.withoutShifts_eq_iff (c : DashboardCell) : c.withoutShifts = c ↔ c.NoShifts := by
  have hqueries : c.queries.map DashboardQuery.withoutShifts = c.queries.map (fun q => q) ↔ c.NoShifts := by
    rw [List.map_inj_left]
    refine forall₂_congr fun q _ => ?_
    unfold DashboardQuery.withoutShifts
    cases q
    simp [eq_comm]
  rw [List.map_id'] at hqueries
  rw [← hqueries]
  exact ⟨congrArg DashboardCell.queries, fun h => by rw [withoutShifts, h]⟩

@[simp] theorem DashboardCell.withoutShifts_idem (c : DashboardCell) :
    c.withoutShifts.withoutShifts = c.withoutShifts := by
  simp [DashboardCell.withoutShifts, DashboardQuery.withoutShifts]

namespace Internal

theorem unmarshalAxis_idem (r : Axis) : unmarshalAxis (unmarshalAxis r) = unmarshalAxis r := by
  unfold unmarshalAxis
  have hbase : (if r.base = "" then "10" else r.base) ≠ "" := by split_ifs <;> simp_all
  have hscale : (if r.scale = "" then "linear" else r.scale) ≠ "" := by split_ifs <;> simp_all
  by_cases hb : r.bounds = []
  · simp only [hb, ne_eq, not_true, if_false, hbase, hscale]
  · simp only [hb, ne_eq, not_false_iff, if_true, hbase, hscale, if_false]

/-- The configuration that would be stored has no shifts. -/
theorem reread_unmarshalQuery (q : Query) :
    unmarshalQuery (marshalQuery (unmarshalQuery q)) = (unmarshalQuery q).withoutShifts := by
  unfold unmarshalQuery marshalQuery DashboardQuery.withoutShifts
  by_cases hw : q.range.upper = q.range.lower <;> simp [hw]

/-- Storing a cell that was read loses its time shifts and nothing else. -/
theorem rereadCell_unmarshalCell (v : DashboardCell) :
    rereadCell (unmarshalCell v) = (unmarshalCell v).withoutShifts := by
  have hqueries : ((v.queries.map unmarshalQuery).map marshalQuery).map unmarshalQuery =
      (v.queries.map unmarshalQuery).map DashboardQuery.withoutShifts := by
    simp only [List.map_map]
    exact List.map_congr_left fun q _ => reread_unmarshalQuery q
  have haxes : ((v.axes.map fun (a, r) => (a, unmarshalAxis r)).map fun (a, r) => (a, unmarshalAxis r)) =
      v.axes.map fun (a, r) => (a, unmarshalAxis r) := by
    rw [List.map_map]
    refine List.map_congr_left fun a _ => ?_
    exact congrArg (Prod.mk a.1) (unmarshalAxis_idem a.2)
  have htype : (if (unmarshalCell v).type = "" then "line" else (unmarshalCell v).type) = (unmarshalCell v).type := by
    have hne : (unmarshalCell v).type ≠ "" := by
      unfold unmarshalCell
      dsimp only
      split_ifs <;> simp_all
    rw [if_neg hne]
  have hread : rereadCell (unmarshalCell v) = { unmarshalCell v with
      queries := ((v.queries.map unmarshalQuery).map marshalQuery).map unmarshalQuery
      axes := (v.axes.map fun (a, r) => (a, unmarshalAxis r)).map fun (a, r) => (a, unmarshalAxis r)
      type := if (unmarshalCell v).type = "" then "line" else (unmarshalCell v).type } := rfl
  rw [hread, hqueries, haxes, htype]
  rfl

/-- A cell as it was read. -/
def Decoded (c : Chronograf.DashboardCell) : Prop := ∃ v, unmarshalCell v = c

theorem decoded_rereadCell (c : Chronograf.DashboardCell) : Decoded (rereadCell c) := ⟨marshalCell c, rfl⟩

theorem Decoded.reread {c : Chronograf.DashboardCell} (h : Decoded c) : rereadCell c = c.withoutShifts := by
  obtain ⟨v, rfl⟩ := h
  exact rereadCell_unmarshalCell v

theorem Decoded.withoutShifts {c : Chronograf.DashboardCell} (h : Decoded c) : Decoded c.withoutShifts := by
  rw [← h.reread]
  exact decoded_rereadCell c

theorem decoded_of_mem {v : Dashboard} {c : Chronograf.DashboardCell} (h : c ∈ (unmarshalDashboard v).cells) :
    Decoded c := by
  obtain ⟨w, -, rfl⟩ := List.mem_map.mp h
  exact ⟨w, rfl⟩

/-- What is read of a dashboard that is stored: only its cells may differ. -/
theorem unmarshal_marshal (d : Chronograf.Dashboard) :
    unmarshalDashboard (marshalDashboard d) = { d with cells := d.cells.map rereadCell } := by
  simp [unmarshalDashboard, marshalDashboard, rereadCell]

end Internal
end Chronograf
