/-
# The handlers for dashboards

`server/dashboards.go`, `server/cells.go` and `server/templates.go`. A cell or
a template is part of a dashboard: it is added, replaced or removed by
writing the dashboard that was read with another list of them.

Key definitions: `newDashboard`, `replaceDashboard`, `updateDashboard`,
`newDashboardCell`, `newTemplate`; `DashboardCall.handler`.
-/
import Chronograf.Server.Auth
import Chronograf.Server.DashboardRequests

namespace Chronograf
namespace Server

open Bolt.DashboardsStore (withCellIDs)

/-! ### Responses -/

/-- The axes x, y and y2 are always shown. -/
def newCellResponse (cell : DashboardCell) : DashboardCell :=
  let missing := ["x", "y", "y2"].filter fun lbl => cell.axes.all fun axis => axis.1 ≠ lbl
  { cell with axes := cell.axes ++ missing.map fun lbl => (lbl, ⟨["", ""], "", "", "", "", ""⟩) }

def newDashboardResponse (d : Dashboard) : Dashboard :=
  let dd := dashboardDefaults d
  { dd with cells := dd.cells.map newCellResponse }

/-! ### Dashboards -/

/-- The ID in the path and the dashboard stored under it, as every handler for
parts of a dashboard begins. -/
def dashboardInPath (s : Service) (ctx : Context) (param : String) : Tx Response Db (ℤ × Dashboard) := do
  let id ← Tx.ofExcept ((paramID param).mapError (.ofError 422))
  let dash ← ((Store.dashboards s.ids ctx).get ctx id).mapError fun _ => .notFound (Int.repr id)
  pure (id, dash)

def dashboards (s : Service) : Handler := fun ctx => do
  let ds ← ((Store.dashboards s.ids ctx).all ctx).mapError fun _ => .error 500 "Error loading dashboards"
  pure { code := 200, body := [.dashboards (ds.map newDashboardResponse)] }

def dashboardID (s : Service) (param : String) : Handler := fun ctx => do
  let (_, e) ← dashboardInPath s ctx param
  pure { code := 200, body := [.dashboard (newDashboardResponse e)] }

def newDashboard (s : Service) (body : Option Dashboard) : Handler := fun ctx => do
  let dashboard ← decode body
  let defaultOrg ← ((Store.organizations s.ids ctx).defaultOrganization ctx).mapError .unknownErrorWithMessage
  let dashboard ← Tx.ofExcept ((validDashboardRequest dashboard defaultOrg.id).mapError .invalidData)
  -- the failed `Add` has put the zero dashboard in its place
  let dashboard ← ((Store.dashboards s.ids ctx).add ctx dashboard).mapError fun err =>
    .unknownErrorWithMessage (.errorf ("Error storing dashboard {0 [] []  }: " ++ err.error))
  let res := newDashboardResponse dashboard
  pure { code := 201, location := "/chronograf/v1/dashboards/" ++ Int.repr res.id, body := [.dashboard res] }

def removeDashboard (s : Service) (param : String) : Handler := fun ctx => do
  let (_, e) ← dashboardInPath s ctx param
  ((Store.dashboards s.ids ctx).delete ctx e).mapError .unknownErrorWithMessage
  pure { code := 204 }

def errorParsingID (err : Error) : Response := .error 500 ("Could not parse dashboard ID: " ++ err.error)

def errorUpdating (id : ℤ) (err : Error) : Response :=
  .error 500 ("Error updating dashboard ID " ++ Int.repr id ++ ": " ++ err.error)

/-- `ReplaceDashboard` from the number of the path on. -/
def replaceDashboardWithID (s : Service) (body : Option Dashboard) (id : ℤ) : Handler := fun ctx => do
  let _ ← ((Store.dashboards s.ids ctx).get ctx id).mapError fun _ => .notFound (Int.repr id)
  let req ← decode body
  let req := { req with id := id }
  let defaultOrg ← ((Store.organizations s.ids ctx).defaultOrganization ctx).mapError .unknownErrorWithMessage
  let req ← Tx.ofExcept ((validDashboardRequest req defaultOrg.id).mapError .invalidData)
  ((Store.dashboards s.ids ctx).update ctx req).mapError (errorUpdating id)
  pure { code := 200, body := [.dashboard (newDashboardResponse (withCellIDs s.ids req))] }

def replaceDashboard (s : Service) (body : Option Dashboard) (param : String) : Handler := fun ctx =>
  match paramID param with
  | .ok id => replaceDashboardWithID s body id ctx
  | .error err => do
    -- the source answers and does not return; it goes on with the number -1
    let first := errorParsingID err
    let second ← (replaceDashboardWithID s body (-1) ctx).mapError first.followedBy
    pure (first.followedBy second)

/-- The dashboard `orig` with the name or the cells of the request. -/
def withNameOrCells (s : Service) (ctx : Context) (orig req : Dashboard) : Tx Response Db Dashboard :=
  if req.name ≠ "" then pure { orig with name := req.name }
  else if req.cells ≠ [] then do
    let defaultOrg ← ((Store.organizations s.ids ctx).defaultOrganization ctx).mapError .unknownErrorWithMessage
    let req ← Tx.ofExcept ((validDashboardRequest req defaultOrg.id).mapError .invalidData)
    pure { orig with cells := req.cells }
  else Tx.fail (.invalidData (.errorf "Update must include either name or cells"))

def updateDashboard (s : Service) (body : Option Dashboard) (param : String) : Handler := fun ctx => do
  let id ← Tx.ofExcept ((paramID param).mapError errorParsingID)
  let orig ← ((Store.dashboards s.ids ctx).get ctx id).mapError fun _ => .notFound (Int.repr id)
  let req ← decode body
  let orig ← withNameOrCells s ctx orig { req with id := id }
  ((Store.dashboards s.ids ctx).update ctx orig).mapError (errorUpdating id)
  pure { code := 200, body := [.dashboard (newDashboardResponse (withCellIDs s.ids orig))] }

/-! ### Cells and templates -/

/-- The answer when `Update` of the dashboard with a changed part fails. -/
def errorWriting (action part partID place : String) (id : ℤ) (err : Error) : Response :=
  .error 500 ("Error " ++ action ++ " " ++ part ++ " " ++ partID ++ " " ++ place ++ " dashboard " ++
    Int.repr id ++ ": " ++ err.error)

def dashboardCells (s : Service) (param : String) : Handler := fun ctx => do
  let (_, e) ← dashboardInPath s ctx param
  pure { code := 200, body := [.cells (newDashboardResponse e).cells] }

def dashboardCellID (s : Service) (param cid : String) : Handler := fun ctx => do
  let (id, dash) ← dashboardInPath s ctx param
  match (newDashboardResponse dash).cells.find? fun cell => cell.id = cid with
  | some cell => pure { code := 200, body := [.cell cell] }
  | none => Tx.fail (.notFound (Int.repr id))

/-- `uuid` is what the generator of identifiers gives for the new cell. -/
def newDashboardCell (s : Service) (body : Option DashboardCell) (uuid : Except String String)
    (param : String) : Handler := fun ctx => do
  let (id, dash) ← dashboardInPath s ctx param
  let cell ← decode body
  let cell ← Tx.ofExcept ((validDashboardCellRequest cell).mapError .invalidData)
  let cid ← Tx.ofExcept (uuid.mapError fun err =>
    .error 500 ("Error creating cell ID of dashboard " ++ Int.repr id ++ ": " ++ err))
  let dash := { dash with cells := dash.cells ++ [{ cell with id := cid }] }
  ((Store.dashboards s.ids ctx).update ctx dash).mapError (errorWriting "adding" "cell" cid "to" id)
  match (newDashboardResponse (withCellIDs s.ids dash)).cells.find? fun cell => cell.id = cid with
  | some cell => pure { code := 200, body := [.cell cell] }
  | none => pure { code := 200 }

def removeDashboardCell (s : Service) (param cid : String) : Handler := fun ctx => do
  let (id, dash) ← dashboardInPath s ctx param
  match dash.cells.findIdx? fun cell => cell.id = cid with
  | none => Tx.fail (.notFound (Int.repr id))
  | some cellid => do
    let dash := { dash with cells := dash.cells.eraseIdx cellid }
    ((Store.dashboards s.ids ctx).update ctx dash).mapError (errorWriting "removing" "cell" cid "from" id)
    pure { code := 204 }

/-- An axis without bounds gets two blank ones. -/
def withAxisBounds (cell : DashboardCell) : DashboardCell :=
  { cell with axes := cell.axes.map fun (i, a) => (i, if a.bounds = [] then { a with bounds := ["", ""] } else a) }

def replaceDashboardCell (s : Service) (body : Option DashboardCell) (param cid : String) : Handler := fun ctx => do
  let (id, dash) ← dashboardInPath s ctx param
  match dash.cells.findIdx? fun cell => cell.id = cid with
  | none => Tx.fail (.notFound cid)
  | some cellid => do
    let cell ← decode body
    let cell ← Tx.ofExcept ((validDashboardCellRequest (withAxisBounds cell)).mapError .invalidData)
    let cell := { cell with id := cid }
    let dash := { dash with cells := dash.cells.set cellid cell }
    ((Store.dashboards s.ids ctx).update ctx dash).mapError (errorWriting "updating" "cell" cid "in" id)
    pure { code := 200, body := [.cell (newCellResponse cell)] }

def templates (s : Service) (param : String) : Handler := fun ctx => do
  let (_, d) ← dashboardInPath s ctx param
  pure { code := 200, body := [.templates d.templates] }

def templateID (s : Service) (param tid : String) : Handler := fun ctx => do
  let (id, dash) ← dashboardInPath s ctx param
  match dash.templates.find? fun t => t.id = tid with
  | some t => pure { code := 200, body := [.template t] }
  | none => Tx.fail (.notFound (Int.repr id))

/-- `uuid` is what the generator of identifiers gives for the new template. -/
def newTemplate (s : Service) (body : Option Template) (uuid : Except String String) (param : String) :
    Handler := fun ctx => do
  let (id, dash) ← dashboardInPath s ctx param
  let template ← decode body
  Tx.ofExcept ((validTemplateRequest template).mapError .invalidData)
  let tid ← Tx.ofExcept (uuid.mapError fun err =>
    .error 500 ("Error creating template ID for dashboard " ++ Int.repr id ++ ": " ++ err))
  let template := { template with id := tid }
  let dash := { dash with templates := dash.templates ++ [template] }
  ((Store.dashboards s.ids ctx).update ctx dash).mapError (errorWriting "adding" "template" tid "to" id)
  pure { code := 200, body := [.template template] }

def removeTemplate (s : Service) (param tid : String) : Handler := fun ctx => do
  let (id, dash) ← dashboardInPath s ctx param
  match dash.templates.findIdx? fun t => t.id = tid with
  | none => Tx.fail (.notFound (Int.repr id))
  | some pos => do
    let dash := { dash with templates := dash.templates.eraseIdx pos }
    ((Store.dashboards s.ids ctx).update ctx dash).mapError (errorWriting "removing" "template" tid "from" id)
    pure { code := 204 }

def replaceTemplate (s : Service) (body : Option Template) (param tid : String) : Handler := fun ctx => do
  let (id, dash) ← dashboardInPath s ctx param
  match dash.templates.findIdx? fun t => t.id = tid with
  | none => Tx.fail (.notFound (Int.repr id))
  | some pos => do
    let template ← decode body
    Tx.ofExcept ((validTemplateRequest template).mapError .invalidData)
    let template := { template with id := tid }
    let dash := { dash with templates := dash.templates.set pos template }
    ((Store.dashboards s.ids ctx).update ctx dash).mapError (errorWriting "updating" "template" tid "in" id)
    pure { code := 200, body := [.template template] }

/-! ### The routes (`server/mux.go`) -/

/-- A request for dashboards or their parts, with the ID in its path. -/
inductive DashboardCall
  | dashboards
  | newDashboard (body : Option Dashboard)
  | dashboardID (id : String)
  | removeDashboard (id : String)
  | replaceDashboard (body : Option Dashboard) (id : String)
  | updateDashboard (body : Option Dashboard) (id : String)
  | dashboardCells (id : String)
  | newDashboardCell (body : Option DashboardCell) (uuid : Except String String) (id : String)
  | dashboardCellID (id cid : String)
  | removeDashboardCell (id cid : String)
  | replaceDashboardCell (body : Option DashboardCell) (id cid : String)
  | templates (id : String)
  | newTemplate (body : Option Template) (uuid : Except String String) (id : String)
  | templateID (id tid : String)
  | removeTemplate (id tid : String)
  | replaceTemplate (body : Option Template) (id tid : String)

def DashboardCall.handler (s : Service) : DashboardCall → Handler
  | dashboards => Server.dashboards s
  | newDashboard body => Server.newDashboard s body
  | dashboardID id => Server.dashboardID s id
  | removeDashboard id => Server.removeDashboard s id
  | replaceDashboard body id => Server.replaceDashboard s body id
  | updateDashboard body id => Server.updateDashboard s body id
  | dashboardCells id => Server.dashboardCells s id
  | newDashboardCell body uuid id => Server.newDashboardCell s body uuid id
  | dashboardCellID id cid => Server.dashboardCellID s id cid
  | removeDashboardCell id cid => Server.removeDashboardCell s id cid
  | replaceDashboardCell body id cid => Server.replaceDashboardCell s body id cid
  | templates id => Server.templates s id
  | newTemplate body uuid id => Server.newTemplate s body uuid id
  | templateID id tid => Server.templateID s id tid
  | removeTemplate id tid => Server.removeTemplate s id tid
  | replaceTemplate body id tid => Server.replaceTemplate s body id tid

end Server
end Chronograf
