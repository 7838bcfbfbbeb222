/-
# What editing a dashboard leaves of the rest

A request that edits one part of a dashboard writes the whole of it. The other
parts come out as they were, except for the cells: what was read of a query has
its time shifts where the encoder does not look for them, so they are lost, and
a cell stored without an ID gets one.

Key definitions: `DashboardEdit.Frame`, `DashboardCell.Settled`,
`getThenUpdate`.
Key theorem: `edits_are_frames_iff`.
-/
import Chronograf.Server.DashboardEdits

namespace Chronograf

/-- A cell with an ID and without time shifts. -/
structure DashboardCell.Settled (c : DashboardCell) : Prop where
  id : c.id ≠ ""
  noShifts : c.NoShifts

namespace Server

open Bolt.DashboardsStore (stored)
open Internal (Decoded rereadCell marshalDashboard)

/-! ### Frames -/

/-- From `d` to `d'`, nothing but what the edit is about is another. -/
def DashboardEdit.Frame : DashboardEdit → Dashboard → Dashboard → Prop
  | name _, d, d' => d' = { d with name := d'.name }
  | cells e, d, d' => d' = { d with cells := d'.cells } ∧ e.Frame d.cells d'.cells
  | templates e, d, d' => d' = { d with templates := d'.templates } ∧ e.Frame d.templates d'.templates

/-- The cells that the edit is not about. -/
def DashboardEdit.otherCells : DashboardEdit → Dashboard → List DashboardCell
  | cells e, d => e.others d.cells
  | _, d => d.cells

/-- Reading a dashboard and writing the very value that was read. -/
def getThenUpdate (s : Service) (ctx : Context) (id : ℤ) : Tx Error Db Unit := do
  let d ← (Store.dashboards s.ids ctx).get ctx id
  (Store.dashboards s.ids ctx).update ctx d

variable {s : Service} {ctx : Context} {db db' : Db} {id : ℤ} {d d' : Dashboard}

/-! ### One cell -/

/-- A cell that was read comes back as it was if it is settled. -/
theorem savedCell_eq_iff {ids : ℕ → String} (hids : ∀ i, ids i ≠ "") {c : DashboardCell} (hc : Decoded c) (i : ℕ) :
    savedCell ids i c = c ↔ c.Settled := by
  unfold savedCell
  by_cases hid : c.id = ""
  · rw [if_neg (not_not.mpr hid)]
    constructor
    · intro h
      have hnew : ids i = c.id := congrArg DashboardCell.id h
      exact absurd (hnew.trans hid) (hids i)
    · intro h
      exact absurd hid h.id
  · rw [if_pos hid, hc.reread, DashboardCell.withoutShifts_eq_iff]
    exact ⟨fun h => ⟨hid, h⟩, fun h => h.noShifts⟩

theorem decoded_of_stored (hd : stored db id = some d) : ∀ c ∈ d.cells, Decoded c := by
  obtain ⟨v, -, rfl⟩ := Option.map_eq_some_iff.mp hd
  exact fun c hc => Internal.decoded_of_mem hc

/-! ### One edit -/

/-- Only the addressed part is another if and only if the other cells are settled. -/
theorem frame_saved_iff (hids : ∀ i, s.ids i ≠ "") (hd : stored db id = some d) {e : DashboardEdit}
    (happly : e.apply d = some d') :
    e.Frame d { d' with cells := d'.cells.mapIdx (savedCell s.ids) } ↔ ∀ c ∈ e.otherCells d, c.Settled := by
  have hcells : ∀ c ∈ d.cells, ∀ i, savedCell s.ids i c = c ↔ c.Settled :=
    fun c hc i => savedCell_eq_iff hids (decoded_of_stored hd c hc) i
  have hall := Parts.Edit.mapIdx_eq_self_iff hcells
  cases e with
  | name n =>
    obtain rfl := Option.some.inj happly
    show _ ↔ ∀ c ∈ d.cells, c.Settled
    rw [← hall]
    simp [DashboardEdit.Frame]
  | cells e =>
    obtain ⟨cs, hcs, rfl⟩ := Option.map_eq_some_iff.mp happly
    rw [DashboardEdit.otherCells, ← Parts.Edit.frame_mapIdx_iff hcells hcs]
    exact ⟨fun h => h.2, fun h => ⟨rfl, h⟩⟩
  | templates e =>
    obtain ⟨ts, hts, rfl⟩ := Option.map_eq_some_iff.mp happly
    show _ ↔ ∀ c ∈ d.cells, c.Settled
    rw [← hall]
    have hframe := Parts.Edit.frame_of_apply hts
    simp [DashboardEdit.Frame, hframe]

/-! ### Requests -/

theorem run_getThenUpdate (h : (getThenUpdate s ctx id).run db = (.ok (), db')) :
    ∃ d, stored db id = some d ∧ db' = written s.ids db d := by
  obtain ⟨r, hget, hok⟩ := run_get_cases s.ids ctx id db
  unfold getThenUpdate at h
  rw [Tx.run_bind, hget] at h
  cases r with
  | error err => cases (Prod.mk.inj h).1
  | ok d =>
    obtain ⟨hd, hsees⟩ := (hok d).mp rfl
    have hself := Bolt.DashboardsStore.id_of_stored hd
    have hrun : ((Store.dashboards s.ids ctx).update ctx d).run db = (.ok (), written s.ids db d) :=
      run_update_seen s.ids hsees (hself ▸ hd)
    exact ⟨d, hd, ((Prod.mk.inj h).2.symm.trans (congrArg Prod.snd hrun))⟩

/-- A request that edits a part and succeeds changes nothing else of the stored
dashboard if and only if the cells that it is not about are settled; writing what
was read changes nothing if and only if all cells are. -/
theorem edits_are_frames_iff (s : Service) (hids : ∀ i, s.ids i ≠ "") (ctx : Context) (db db' : Db) :
    (∀ call param r, DashboardCall.Edits call param → (call.handler s ctx).run db = (.ok r, db') →
      ∃ id d d' e, paramID param = .ok id ∧ stored db id = some d ∧ stored db' id = some d' ∧
        call.edit = some e ∧ (e.Frame d d' ↔ ∀ c ∈ e.otherCells d, c.Settled)) ∧
    (∀ id, (getThenUpdate s ctx id).run db = (.ok (), db') →
      ∃ d d', stored db id = some d ∧ stored db' id = some d' ∧ (d' = d ↔ ∀ c ∈ d.cells, c.Settled)) := by
  constructor
  · intro call param r hcall hrun
    obtain ⟨id, hid⟩ := paramID_of_run_ok hcall hrun
    obtain ⟨d, d', hd, -, happly, rfl⟩ := (run_edit_ok_iff hcall hid).mp ⟨r, hrun⟩
    obtain ⟨e, he, happly⟩ := Option.bind_eq_some_iff.mp happly
    have hself : d'.id = id := by rw [DashboardEdit.apply_id happly, Bolt.DashboardsStore.id_of_stored hd]
    refine ⟨id, d, _, e, hid, hd, ?_, he, frame_saved_iff hids hd happly⟩
    rw [← hself]
    exact stored_written s.ids db d'
  · intro id hrun
    obtain ⟨d, hd, rfl⟩ := run_getThenUpdate hrun
    have hself := Bolt.DashboardsStore.id_of_stored hd
    have hread := (congrArg (stored (written s.ids db d)) hself.symm).trans (stored_written s.ids db d)
    refine ⟨d, _, hd, hread, ?_⟩
    have hcells : ∀ c ∈ d.cells, ∀ i, savedCell s.ids i c = c ↔ c.Settled :=
      fun c hc i => savedCell_eq_iff hids (decoded_of_stored hd c hc) i
    rw [← Parts.Edit.mapIdx_eq_self_iff hcells]
    refine ⟨congrArg Dashboard.cells, fun h => ?_⟩
    show ({ d with cells := d.cells.mapIdx (savedCell s.ids) } : Dashboard) = { d with cells := d.cells }
    rw [h]

/-! ### Time shifts that are lost -/

/-- A line of the number of requests, beside that of an hour before. -/
def exampleShiftedCell : DashboardCell where
  id := "c1"
  x := 0
  y := 0
  w := 4
  h := 4
  name := "requests"
  queries := [⟨"SELECT count(*) FROM http", "", none, ⟨[], [⟨"an hour ago", "h", "1"⟩]⟩, "", []⟩]
  axes := []
  type := "line"
  cellColors := []
  legend := ⟨"", ""⟩
  tableOptions := ⟨false, ⟨"", "", false⟩, "", false⟩
  fieldOptions := []
  timeFormat := ""
  decimalPlaces := ⟨true, 2⟩

/-- The dashboard as a request writes it, and as it is read. -/
def exampleShifted : Dashboard := ⟨1, [exampleShiftedCell], [], "hosts", "1"⟩

def exampleShiftedDb : Db :=
  { Db.opened with dashboards := Bucket.empty.nextSequence.put (marshalDashboard exampleShifted) }

/-- What is left of it when it is read and written again. -/
def exampleUnshifted : Dashboard :=
  { exampleShifted with cells := [(rereadCell exampleShiftedCell).withoutShifts] }

def exampleRename : DashboardCall := .updateDashboard (some ⟨0, [], [], "servers", ""⟩) "1"

/-- A service whose generator gives an identifier. -/
def exampleGenerator : Service := { exampleService with ids := fun _ => "id" }

theorem edits_are_frames_iff_example : ∃ id d d' e, paramID "1" = .ok id ∧ stored exampleShiftedDb id = some d ∧
    stored ((exampleRename.handler exampleGenerator).after { organization := some "1" } exampleShiftedDb) id =
      some d' ∧ exampleRename.edit = some e ∧ (e.Frame d d' ↔ ∀ c ∈ e.otherCells d, c.Settled) :=
  (edits_are_frames_iff exampleGenerator (fun _ => (by decide : "id" ≠ "")) { organization := some "1" }
    exampleShiftedDb ((exampleRename.handler exampleGenerator).after { organization := some "1" } exampleShiftedDb)).1
    exampleRename "1" _ (.name ⟨0, [], [], "servers", ""⟩ "1" (by decide)) rfl

/-- Another name for the dashboard, and the time shift of its query is gone. So it
is when the dashboard is only read and written. -/
theorem rename_loses_shifts :
    (∃ d, stored exampleShiftedDb 1 = some d ∧ d.cells.map (fun c => c.queries.map fun q => q.shifts) =
      [[[⟨"an hour ago", "h", "1"⟩]]] ∧
      ¬ (DashboardEdit.name "servers").Frame d { exampleUnshifted with name := "servers" } ∧ exampleUnshifted ≠ d) ∧
    (∃ r, (exampleRename.handler exampleGenerator { organization := some "1" }).run exampleShiftedDb = (.ok r,
      (exampleRename.handler exampleGenerator).after { organization := some "1" } exampleShiftedDb)) ∧
    stored ((exampleRename.handler exampleGenerator).after { organization := some "1" } exampleShiftedDb) 1 =
      some { exampleUnshifted with name := "servers" } ∧
    stored ((getThenUpdate exampleGenerator { organization := some "1" } 1).run exampleShiftedDb).2 1 =
      some exampleUnshifted := by
  refine ⟨⟨_, rfl, rfl, ?_, by decide⟩, ⟨_, rfl⟩, by decide, by decide⟩
  intro h
  exact absurd (congrArg Dashboard.cells h) (by decide)

end Server
end Chronograf
