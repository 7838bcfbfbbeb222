/-
# The dashboards store

`bolt/dashboards.go`. Dashboards are kept in their stored form, under the
decimal text of their ID. The identifiers of cells come from a generator that
is not part of the repository; `ids i` is the one it gives to the cell in
position `i` during a call.
-/
import Chronograf.Bolt.Client

namespace Chronograf
namespace Bolt
namespace DashboardsStore

open Internal (marshalDashboard unmarshalDashboard)

variable (ids : ℕ → String)

def all (_ : Context) : Tx Error Db (List Dashboard) := Db.view fun db =>
  .ok (db.dashboards.recs.map unmarshalDashboard)

/-- Every cell gets a new ID. -/
def add (_ : Context) (src : Dashboard) : Tx Error Db Dashboard := Db.update fun db =>
  let b := db.dashboards.nextSequence
  let src := { src with id := b.seq, cells := src.cells.mapIdx fun i cell => { cell with id := ids i } }
  .ok (src, { db with dashboards := b.put (marshalDashboard src) })

def get (_ : Context) (id : ℤ) : Tx Error Db Dashboard := Db.view fun db =>
  match db.dashboards.get (Int.repr id) with
  | none => .error .errDashboardNotFound
  | some v => .ok (unmarshalDashboard v)

def delete (_ : Context) (dash : Dashboard) : Tx Error Db Unit := Db.update fun db =>
  .ok ((), { db with dashboards := db.dashboards.delete (Int.repr dash.id) })

/-- A cell without an ID gets a new one. The source writes it into the cells it
was given, so the caller sees it too. -/
def withCellIDs (dash : Dashboard) : Dashboard :=
  { dash with cells := dash.cells.mapIdx fun i cell => if cell.id ≠ "" then cell else { cell with id := ids i } }

def update (_ : Context) (dash : Dashboard) : Tx Error Db Unit := Db.update fun db =>
  match db.dashboards.get (Int.repr dash.id) with
  | none => .error .errDashboardNotFound
  | some _ => .ok ((), { db with dashboards := db.dashboards.put (marshalDashboard (withCellIDs ids dash)) })

@[simp] theorem withCellIDs_id (dash : Dashboard) : (withCellIDs ids dash).id = dash.id := rfl

@[simp] theorem withCellIDs_organization (dash : Dashboard) :
    (withCellIDs ids dash).organization = dash.organization := rfl

end DashboardsStore

/-- `bolt.DashboardsStore` as a `chronograf.DashboardsStore`. -/
def dashboardsStore (ids : ℕ → String) : Chronograf.DashboardsStore Db where
  all := DashboardsStore.all
  add := DashboardsStore.add ids
  delete := DashboardsStore.delete
  get := DashboardsStore.get
  update := DashboardsStore.update ids

end Bolt
end Chronograf
