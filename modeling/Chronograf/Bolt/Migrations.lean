/-
# Migrations of the database

`bolt/base.go` and `bolt/change_interval_to_duration.go`. A migration looks
whether it is marked as complete, runs, and marks itself, in a transaction for
each. The one there is rewrites the commands of all dashboards. It reads and
writes them through copies of the messages that lack the fields added since,
and its rewriting is not idempotent: when it is cut short between its second
and its third transaction, the next start rewrites the commands again.

Key definitions: `migrateAll`, `ChangeIntervalToDuration.updateRecord`,
`MigratedOnce`.
Key theorem: `migrated_once_iff`.
-/
import Chronograf.Bolt.Client
import Chronograf.Lib.Cut
import Chronograf.Lib.Replace
import Mathlib.Logic.Function.Basic

namespace Chronograf
namespace Bolt

/-- The database file: the stores, and under the ID of each completed migration
the time of it. -/
structure Database where
  stores : Db
  schemaVersions : String → Option String

/-! ### Migrations -/

def isMigrationComplete (id : String) : Tx Error Database Bool :=
  Tx.view .storage fun db => .ok (db.schemaVersions id).isSome

def markMigrationAsComplete (now id : String) : Tx Error Database Unit :=
  Tx.update .storage fun db => .ok ((), { db with schemaVersions := Function.update db.schemaVersions id (some now) })

structure Migration where
  id : String
  up : Tx Error Database Unit
  down : Tx Error Database Unit

/-- The migration, if it is not complete; `now` is the time at its end. -/
def Migration.migrate (now : String) (m : Migration) : Tx Error Database Unit := do
  let complete ← isMigrationComplete m.id
  if complete then pure ()
  else do
    m.up
    markMigrationAsComplete now m.id

namespace ChangeIntervalToDuration

/-! ### The messages as they were -/

structure DashboardCell where
  id : String
  x : ℤ
  y : ℤ
  w : ℤ
  h : ℤ
  name : String
  queries : List Internal.Query
  type : String
  axes : StringMap Axis
  colors : List CellColor
  legend : Option Legend
  tableOptions : Option TableOptions

structure TemplateValue where
  value : String
  type : String
  selected : Bool

structure Template where
  var : String
  values : List TemplateValue
  id : String
  type : String
  label : String
  query : Option TemplateQuery

structure Dashboard where
  id : ℤ
  cells : List DashboardCell
  templates : List Template
  name : String
  organization : String

/-! `proto.Unmarshal` into these messages drops the fields they lack. What
`proto.Marshal` writes of them has these fields unset. -/

def unmarshalCell (c : Internal.DashboardCell) : DashboardCell where
  id := c.id
  x := c.x
  y := c.y
  w := c.w
  h := c.h
  name := c.name
  queries := c.queries
  type := c.type
  axes := c.axes
  colors := c.colors
  legend := c.legend
  tableOptions := c.tableOptions

def marshalCell (c : DashboardCell) : Internal.DashboardCell where
  id := c.id
  x := c.x
  y := c.y
  w := c.w
  h := c.h
  name := c.name
  queries := c.queries
  type := c.type
  axes := c.axes
  colors := c.colors
  legend := c.legend
  tableOptions := c.tableOptions
  fieldOptions := []
  timeFormat := ""
  decimalPlaces := none

def unmarshalValue (v : Chronograf.TemplateValue) : TemplateValue := ⟨v.value, v.type, v.selected⟩

def marshalValue (v : TemplateValue) : Chronograf.TemplateValue := ⟨v.value, v.type, v.selected, ""⟩

def unmarshalTemplate (t : Chronograf.Template) : Template :=
  ⟨t.var, t.values.map unmarshalValue, t.id, t.type, t.label, t.query⟩

def marshalTemplate (t : Template) : Chronograf.Template :=
  ⟨t.var, t.values.map marshalValue, t.id, t.type, t.label, t.query⟩

def unmarshal (d : Internal.Dashboard) : Dashboard :=
  ⟨d.id, d.cells.map unmarshalCell, d.templates.map unmarshalTemplate, d.name, d.organization⟩

def marshal (d : Dashboard) : Internal.Dashboard :=
  ⟨d.id, d.cells.map marshalCell, d.templates.map marshalTemplate, d.name, d.organization⟩

/-! ### The migration -/

def old : String := ":interval:"

def new : String := "time(:interval:)"

/-- `strings.Replace(command, old, new, -1)`. -/
def replaceInterval (command : String) : String :=
  String.ofList (Replace.replaceAll old.toList new.toList command.toList)

def updateDashboard (board : Dashboard) : Dashboard :=
  { board with cells := board.cells.map fun cell =>
      { cell with queries := cell.queries.map fun query =>
          { query with command := replaceInterval query.command } } }

/-- What becomes of a record. -/
def updateRecord (d : Internal.Dashboard) : Internal.Dashboard := marshal (updateDashboard (unmarshal d))

def updateDatabase (db : Database) : Database :=
  { db with stores := { db.stores with dashboards := db.stores.dashboards.sweep (fun _ => true) updateRecord } }

def up : Tx Error Database Unit := Tx.update .storage fun db => .ok ((), updateDatabase db)

def down : Tx Error Database Unit := pure ()

end ChangeIntervalToDuration

def changeIntervalToDuration : Migration where
  id := "59b0cda4fc7909ff84ee5c4f9cb4b655b6a26620"
  up := ChangeIntervalToDuration.up
  down := ChangeIntervalToDuration.down

def migrations : List Migration := [changeIntervalToDuration]

/-- All migrations, in order. -/
def migrateAll (now : String) : Tx Error Database Unit := Tx.forEach migrations (Migration.migrate now)

/-! ### What the migration is to do -/

end Bolt

namespace Internal

/-- The dashboard with `f` of each command. -/
def DashboardCell.mapCommands (f : String → String) (c : DashboardCell) : DashboardCell :=
  { c with queries := c.queries.map fun q => { q with command := f q.command } }

def Dashboard.mapCommands (f : String → String) (d : Dashboard) : Dashboard :=
  { d with cells := d.cells.map (DashboardCell.mapCommands f) }

end Internal

namespace Bolt

open ChangeIntervalToDuration (replaceInterval)

/-- Whether the migration is marked as complete. -/
def Database.Complete (db : Database) : Prop := (db.schemaVersions changeIntervalToDuration.id).isSome

instance (db : Database) : Decidable db.Complete :=
  inferInstanceAs (Decidable ((db.schemaVersions changeIntervalToDuration.id).isSome = true))

/-- Each dashboard of `db'` is the one of `db`, with the intervals of its
commands replaced once. Of a database that is marked, nothing is replaced. -/
def MigratedOnce (db db' : Database) : Prop :=
  (db.Complete → db' = db) ∧
    (¬ db.Complete → ∀ k, db'.stores.dashboards.get k =
      (db.stores.dashboards.get k).map (Internal.Dashboard.mapCommands replaceInterval))

/-! ### The rewriting of a record -/

/-- The cell has none of the fields that the old message lacks. -/
structure KnownCell (c : Internal.DashboardCell) : Prop where
  fieldOptions : c.fieldOptions = []
  timeFormat : c.timeFormat = ""
  decimalPlaces : c.decimalPlaces = none

/-- The dashboard has none of the fields that the old messages lack. -/
structure Known (d : Internal.Dashboard) : Prop where
  cells : ∀ c ∈ d.cells, KnownCell c
  templates : ∀ t ∈ d.templates, ∀ v ∈ t.values, v.key = ""

/-- The command has no interval in it. -/
def NoInterval (command : String) : Prop := ¬ ChangeIntervalToDuration.old.toList <:+: command.toList

instance (command : String) : Decidable (NoInterval command) :=
  inferInstanceAs (Decidable (¬ ChangeIntervalToDuration.old.toList <:+: command.toList))

/-- No command of the dashboard has an interval in it. -/
def NoIntervals (d : Internal.Dashboard) : Prop := ∀ c ∈ d.cells, ∀ q ∈ c.queries, NoInterval q.command

theorem replaceInterval_twice_iff (command : String) :
    replaceInterval (replaceInterval command) = replaceInterval command ↔ NoInterval command := by
  have hlen : ChangeIntervalToDuration.old.toList.length < ChangeIntervalToDuration.new.toList.length := by decide
  have hnew : ChangeIntervalToDuration.old.toList <:+: ChangeIntervalToDuration.new.toList := by decide
  have htwice := Replace.replaceAll_twice_iff hlen (by decide) hnew (s := command.toList)
  unfold NoInterval
  rw [← htwice]
  unfold replaceInterval
  rw [String.ofList_inj, String.toList_ofList]

namespace ChangeIntervalToDuration

/-- The fields of the message at its current version that come back. -/
def reread (d : Internal.Dashboard) : Internal.Dashboard := marshal (unmarshal d)

theorem updateRecord_eq (d : Internal.Dashboard) : updateRecord d = (reread d).mapCommands replaceInterval := by
  simp only [updateRecord, updateDashboard, reread, marshal, unmarshal, Internal.Dashboard.mapCommands, List.map_map]
  rfl

theorem reread_cell_iff (f g : String → String) (c : Internal.DashboardCell) :
    (marshalCell (unmarshalCell c)).mapCommands g = c.mapCommands f ↔
      KnownCell c ∧ ∀ q ∈ c.queries, g q.command = f q.command := by
  have hqueries : (c.queries.map fun q => { q with command := g q.command }) =
      (c.queries.map fun q => { q with command := f q.command }) ↔ ∀ q ∈ c.queries, g q.command = f q.command := by
    rw [List.map_inj_left]
    refine forall₂_congr fun q _ => ?_
    simp
  rw [← hqueries]
  constructor
  · intro h
    refine ⟨⟨?_, ?_, ?_⟩, congrArg Internal.DashboardCell.queries h⟩
    · exact (congrArg Internal.DashboardCell.fieldOptions h).symm
    · exact (congrArg Internal.DashboardCell.timeFormat h).symm
    · exact (congrArg Internal.DashboardCell.decimalPlaces h).symm
  · rintro ⟨⟨ho, ht, hp⟩, hq⟩
    unfold Internal.DashboardCell.mapCommands
    rw [ho, ht, hp, ← hq]
    rfl

theorem reread_template_iff (t : Chronograf.Template) :
    marshalTemplate (unmarshalTemplate t) = t ↔ ∀ v ∈ t.values, v.key = "" := by
  have hvalues : (t.values.map unmarshalValue).map marshalValue = t.values.map (fun v => v) ↔
      ∀ v ∈ t.values, v.key = "" := by
    rw [List.map_map, List.map_inj_left]
    refine forall₂_congr fun v _ => ?_
    cases v
    simp [unmarshalValue, marshalValue, eq_comm]
  rw [List.map_id'] at hvalues
  rw [← hvalues]
  exact ⟨congrArg Chronograf.Template.values, fun h => by
    unfold marshalTemplate unmarshalTemplate
    dsimp only
    rw [h]⟩

/-- Through the old messages, `g` of each command is stored instead of `f` of it
and nothing else is changed. -/
theorem reread_iff (f g : String → String) (d : Internal.Dashboard) :
    (reread d).mapCommands g = d.mapCommands f ↔
      Known d ∧ ∀ c ∈ d.cells, ∀ q ∈ c.queries, g q.command = f q.command := by
  have hcells : ((d.cells.map unmarshalCell).map marshalCell).map (Internal.DashboardCell.mapCommands g) =
      d.cells.map (Internal.DashboardCell.mapCommands f) ↔
        ∀ c ∈ d.cells, KnownCell c ∧ ∀ q ∈ c.queries, g q.command = f q.command := by
    rw [List.map_map, List.map_map, List.map_inj_left]
    exact forall₂_congr fun c _ => reread_cell_iff f g c
  have htemplates : (d.templates.map unmarshalTemplate).map marshalTemplate = d.templates.map (fun t => t) ↔
      ∀ t ∈ d.templates, ∀ v ∈ t.values, v.key = "" := by
    rw [List.map_map, List.map_inj_left]
    exact forall₂_congr fun t _ => reread_template_iff t
  rw [List.map_id'] at htemplates
  constructor
  · intro h
    have hc := hcells.mp (congrArg Internal.Dashboard.cells h)
    exact ⟨⟨fun c hm => (hc c hm).1, htemplates.mp (congrArg Internal.Dashboard.templates h)⟩,
      fun c hm => (hc c hm).2⟩
  · rintro ⟨hknown, hq⟩
    have hc := hcells.mpr fun c hm => ⟨hknown.cells c hm, hq c hm⟩
    have ht := htemplates.mpr hknown.templates
    unfold reread marshal unmarshal Internal.Dashboard.mapCommands
    dsimp only
    rw [hc, ht]

/-- Rewritten once, the record is as it should be if the old messages lack
nothing of it. -/
theorem updateRecord_iff (d : Internal.Dashboard) :
    updateRecord d = d.mapCommands replaceInterval ↔ Known d := by
  rw [updateRecord_eq, reread_iff]
  simp

theorem reread_mapCommands (f : String → String) (d : Internal.Dashboard) :
    reread (d.mapCommands f) = (reread d).mapCommands f := by
  simp only [reread, marshal, unmarshal, Internal.Dashboard.mapCommands, List.map_map]
  rfl

theorem reread_idem (d : Internal.Dashboard) : reread (reread d) = reread d := by
  simp only [reread, marshal, unmarshal, marshalTemplate, unmarshalTemplate, List.map_map, Function.comp_def]
  rfl

theorem mapCommands_mapCommands (f g : String → String) (d : Internal.Dashboard) :
    (d.mapCommands f).mapCommands g = d.mapCommands fun s => g (f s) := by
  simp only [Internal.Dashboard.mapCommands, List.map_map, Function.comp_def, Internal.DashboardCell.mapCommands]
  rfl

/-- Rewritten twice, it is so if moreover there was nothing to rewrite. -/
theorem updateRecord_twice_iff (d : Internal.Dashboard) :
    updateRecord (updateRecord d) = d.mapCommands replaceInterval ↔ Known d ∧ NoIntervals d := by
  have htwice : updateRecord (updateRecord d) =
      (reread d).mapCommands fun s => replaceInterval (replaceInterval s) := by
    rw [updateRecord_eq d, updateRecord_eq, reread_mapCommands, reread_idem, mapCommands_mapCommands]
  rw [htwice, reread_iff]
  refine and_congr_right fun _ => forall₂_congr fun c _ => forall₂_congr fun q _ => ?_
  exact replaceInterval_twice_iff q.command

/-- The migration rewrites each dashboard in its place. -/
theorem get_updateDatabase (db : Database) (k : String) :
    (updateDatabase db).stores.dashboards.get k = (db.stores.dashboards.get k).map updateRecord := by
  have hkey : ∀ d, key (updateRecord d) = key d := fun _ => rfl
  show (db.stores.dashboards.sweep (fun _ => true) updateRecord).get k = _
  rw [Bucket.get_sweep hkey]
  rfl

end ChangeIntervalToDuration

/-! ### Migrations that are cut short -/

open ChangeIntervalToDuration (updateDatabase)

/-- The database, marked as migrated at the time `now`. -/
def Database.mark (now : String) (db : Database) : Database :=
  { db with schemaVersions := Function.update db.schemaVersions changeIntervalToDuration.id (some now) }

theorem complete_mark (now : String) (db : Database) : (db.mark now).Complete := by
  simp [Database.Complete, Database.mark]

theorem migrateAll_eq (now : String) :
    migrateAll now = isMigrationComplete changeIntervalToDuration.id >>= fun complete =>
      if complete then pure ()
      else ChangeIntervalToDuration.up >>= fun _ => markMigrationAsComplete now changeIntervalToDuration.id :=
  Tx.forEach_singleton _ _

theorem run_isMigrationComplete (id : String) (db : Database) :
    (isMigrationComplete id).run db = (.ok (db.schemaVersions id).isSome, db) := rfl

section Cuts

variable {now : String} {db : Database} (fails : Bool)

theorem cut_isMigrationComplete_bind {id : String} {f : Bool → Tx Error Database Unit} {n : ℕ} :
    (isMigrationComplete id >>= f).cut fails (n + 1) db = (f (db.schemaVersions id).isSome).cut fails n db := by
  have hread : (.ok (db.schemaVersions id).isSome : Except Error Bool) = .ok (db.schemaVersions id).isSome := rfl
  exact Tx.cut_view_bind hread

theorem cut_migrateAll_of_complete (h : db.Complete) (n : ℕ) : (migrateAll now).cut fails n db = db := by
  rw [migrateAll_eq]
  cases n with
  | zero => exact Tx.cut_zero_view_bind
  | succ n =>
    have hyes : (db.schemaVersions changeIntervalToDuration.id).isSome = true := h
    rw [cut_isMigrationComplete_bind, hyes]
    cases n <;> rfl

/-- Before the second transaction nothing has happened, after it the dashboards
are rewritten, and only the third marks the migration. -/
theorem cut_migrateAll (h : ¬ db.Complete) (n : ℕ) :
    (migrateAll now).cut fails n db =
      if n ≤ 1 then db else if n = 2 then updateDatabase db else (updateDatabase db).mark now := by
  have hnot : (db.schemaVersions changeIntervalToDuration.id).isSome = false := Bool.eq_false_iff.mpr h
  rw [migrateAll_eq]
  match n with
  | 0 => exact Tx.cut_zero_view_bind
  | 1 =>
    rw [cut_isMigrationComplete_bind, hnot]
    exact Tx.cut_zero_update_bind
  | 2 =>
    rw [cut_isMigrationComplete_bind, hnot]
    exact (Tx.cut_update_bind rfl).trans (by cases fails <;> rfl)
  | n + 3 =>
    rw [cut_isMigrationComplete_bind, hnot]
    refine (Tx.cut_update_bind rfl).trans ?_
    cases n <;> rfl

theorem run_migrateAll_of_complete (h : db.Complete) : (migrateAll now).run db = (.ok (), db) := by
  have hyes : (db.schemaVersions changeIntervalToDuration.id).isSome = true := h
  rw [migrateAll_eq, Tx.run_bind_ok (run_isMigrationComplete _ _), hyes]
  rfl

theorem run_migrateAll (h : ¬ db.Complete) : (migrateAll now).run db = (.ok (), (updateDatabase db).mark now) := by
  have hnot : (db.schemaVersions changeIntervalToDuration.id).isSome = false := Bool.eq_false_iff.mpr h
  rw [migrateAll_eq, Tx.run_bind_ok (run_isMigrationComplete _ _), hnot]
  rfl

end Cuts

/-! ### Cut short and started again -/

/-- Every dashboard of the database has only fields that the old messages have. -/
def Database.Known (db : Database) : Prop := ∀ d ∈ db.stores.dashboards.recs, Bolt.Known d

/-- No dashboard of the database has a command with an interval. -/
def Database.NoIntervals (db : Database) : Prop := ∀ d ∈ db.stores.dashboards.recs, Bolt.NoIntervals d

/-- What is in the dashboards after the next start. -/
theorem get_restarted (now now' : String) (fails : Bool) (n : ℕ) {db : Database} (h : ¬ db.Complete) (k : String) :
    ((migrateAll now').run ((migrateAll now).cut fails n db)).2.stores.dashboards.get k =
      (db.stores.dashboards.get k).map fun d =>
        if n = 2 then ChangeIntervalToDuration.updateRecord (ChangeIntervalToDuration.updateRecord d)
        else ChangeIntervalToDuration.updateRecord d := by
  rw [cut_migrateAll fails h]
  by_cases hearly : n ≤ 1
  · have hne : n ≠ 2 := by omega
    rw [if_pos hearly, run_migrateAll h]
    simp only [hne, if_false]
    exact ChangeIntervalToDuration.get_updateDatabase db k
  rw [if_neg hearly]
  by_cases htwo : n = 2
  · have hagain : ¬ (updateDatabase db).Complete := h
    rw [if_pos htwo, run_migrateAll hagain]
    simp only [htwo, if_true]
    show (updateDatabase (updateDatabase db)).stores.dashboards.get k = _
    rw [ChangeIntervalToDuration.get_updateDatabase, ChangeIntervalToDuration.get_updateDatabase, Option.map_map]
    rfl
  · rw [if_neg htwo, run_migrateAll_of_complete (complete_mark now _)]
    simp only [htwo, if_false]
    exact ChangeIntervalToDuration.get_updateDatabase db k

/-- After a start that was cut short behind `n` transactions and another one,
every dashboard is migrated once if and only if the migration was marked before
or no dashboard has a field that the old messages lack, and, where the cut is
between the rewriting and the mark, no command has an interval. -/
theorem migrated_once_iff (now now' : String) (fails : Bool) (n : ℕ) (db : Database) :
    MigratedOnce db ((migrateAll now').run ((migrateAll now).cut fails n db)).2 ↔
      db.Complete ∨ db.Known ∧ (n = 2 → db.NoIntervals) := by
  by_cases h : db.Complete
  · rw [cut_migrateAll_of_complete fails h, run_migrateAll_of_complete h]
    exact ⟨fun _ => .inl h, fun _ => ⟨fun _ => rfl, fun hnot => absurd h hnot⟩⟩
  have hgets : MigratedOnce db ((migrateAll now').run ((migrateAll now).cut fails n db)).2 ↔
      ∀ d ∈ db.stores.dashboards.recs, (if n = 2 then
        ChangeIntervalToDuration.updateRecord (ChangeIntervalToDuration.updateRecord d)
        else ChangeIntervalToDuration.updateRecord d) = d.mapCommands replaceInterval := by
    rw [← Bucket.map_get_eq_iff]
    unfold MigratedOnce
    simp only [get_restarted now now' fails n h, h, false_imp_iff, true_and, not_false_iff, true_imp_iff]
  rw [hgets, or_iff_right h]
  by_cases htwo : n = 2
  · simp only [htwo, if_true, true_imp_iff, ChangeIntervalToDuration.updateRecord_twice_iff]
    exact ⟨fun hd => ⟨fun d hm => (hd d hm).1, fun d hm => (hd d hm).2⟩, fun hd d hm => ⟨hd.1 d hm, hd.2 d hm⟩⟩
  · simp only [htwo, if_false, false_imp_iff, and_true, ChangeIntervalToDuration.updateRecord_iff]
    rfl

/-- A database with one dashboard, of a query that is grouped by the interval. -/
def exampleIntervalDb : Database where
  stores := { Db.empty with dashboards := Bucket.empty.put {
    id := 1
    cells := [{
      id := "c1", x := 0, y := 0, w := 4, h := 4, name := "load"
      queries := [⟨"SELECT max(\"load1\") FROM \"system\" GROUP BY :interval:", "", ⟨0, 0⟩, "", []⟩]
      type := "line"
      axes := []
      colors := []
      legend := none
      tableOptions := none
      fieldOptions := []
      timeFormat := ""
      decimalPlaces := none }]
    templates := []
    name := "hosts"
    organization := "default" } }
  schemaVersions _ := none

/-- The commands in the database, in order. -/
def Database.commands (db : Database) : List String :=
  db.stores.dashboards.recs.flatMap fun d => d.cells.flatMap fun c => c.queries.map (·.command)

/-- The process stops between the rewriting and the mark. -/
theorem interval_migrated_twice :
    ¬ MigratedOnce exampleIntervalDb ((migrateAll "").run ((migrateAll "").cut false 2 exampleIntervalDb)).2 ∧
    ((migrateAll "").run ((migrateAll "").cut false 2 exampleIntervalDb)).2.commands =
      ["SELECT max(\"load1\") FROM \"system\" GROUP BY time(time(:interval:))"] := by
  constructor
  · rintro ⟨-, h⟩
    have hnot : ¬ exampleIntervalDb.Complete := by decide
    have hget := h hnot "1"
    revert hget
    decide
  · decide

end Bolt
end Chronograf
