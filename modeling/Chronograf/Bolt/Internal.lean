/-
# The stored form of a dashboard

`bolt/internal/internal.go`: what `MarshalDashboard` writes and
`UnmarshalDashboard` reads back. The generated protobuf code is taken to
return the message it was given; a message of it has a structure here where
its fields differ from the record's.

Key definitions: `marshalDashboard`, `unmarshalDashboard`.
-/
import Chronograf.Dashboard

namespace Chronograf
namespace Internal

/-- The message of a dashboard query: no query configuration, always a range. -/
structure Query where
  command : String
  label : String
  range : Range
  source : String
  shifts : List TimeShift
  deriving DecidableEq

/-- The message of a cell. Cells stored by earlier versions lack the legend,
the table options or the decimal places. -/
structure DashboardCell where
  id : String
  x : ℤ
  y : ℤ
  w : ℤ
  h : ℤ
  name : String
  queries : List Query
  type : String
  axes : StringMap Axis
  colors : List CellColor
  legend : Option Legend
  tableOptions : Option TableOptions
  fieldOptions : List RenamableField
  timeFormat : String
  decimalPlaces : Option DecimalPlaces
  deriving DecidableEq

/-- The message of a dashboard. -/
structure Dashboard where
  id : ℤ
  cells : List DashboardCell
  templates : List Template
  name : String
  organization : String
  deriving DecidableEq

/-- The query's shifts are taken from its configuration. -/
def marshalQuery (q : DashboardQuery) : Query where
  command := q.command
  label := q.label
  range := q.range.getD ⟨0, 0⟩
  source := q.source
  shifts := q.queryConfig.shifts

def marshalCell (c : Chronograf.DashboardCell) : DashboardCell where
  id := c.id
  x := c.x
  y := c.y
  w := c.w
  h := c.h
  name := c.name
  queries := c.queries.map marshalQuery
  type := c.type
  axes := c.axes
  colors := c.cellColors
  legend := some c.legend
  tableOptions := some c.tableOptions
  fieldOptions := c.fieldOptions
  timeFormat := c.timeFormat
  decimalPlaces := some c.decimalPlaces

def marshalDashboard (d : Chronograf.Dashboard) : Dashboard where
  id := d.id
  cells := d.cells.map marshalCell
  templates := d.templates
  name := d.name
  organization := d.organization

/-- The configuration comes back empty, and a range of no width not at all. -/
def unmarshalQuery (q : Query) : DashboardQuery where
  command := q.command
  label := q.label
  range := if q.range.upper ≠ q.range.lower then some q.range else none
  queryConfig := ⟨[], []⟩
  source := q.source
  shifts := q.shifts

/-- The base defaults to 10 and the scale to linear. An axis without bounds
comes back with these two only. -/
def unmarshalAxis (r : Axis) : Axis :=
  let base := if r.base = "" then "10" else r.base
  let scale := if r.scale = "" then "linear" else r.scale
  if r.bounds ≠ [] then { r with base := base, scale := scale }
  else { bounds := [], label := "", pre := "", suffix := "", base := base, scale := scale }

def unmarshalCell (c : DashboardCell) : Chronograf.DashboardCell where
  id := c.id
  x := c.x
  y := c.y
  w := c.w
  h := c.h
  name := c.name
  queries := c.queries.map unmarshalQuery
  axes := c.axes.map fun (a, r) => (a, unmarshalAxis r)
  type := if c.type = "" then "line" else c.type
  cellColors := c.colors
  legend := c.legend.getD ⟨"", ""⟩
  tableOptions := c.tableOptions.getD ⟨false, ⟨"", "", false⟩, "", false⟩
  fieldOptions := c.fieldOptions
  timeFormat := c.timeFormat
  decimalPlaces := c.decimalPlaces.getD ⟨true, 2⟩

def unmarshalDashboard (d : Dashboard) : Chronograf.Dashboard where
  id := d.id
  cells := d.cells.map unmarshalCell
  templates := d.templates
  name := d.name
  organization := d.organization

@[simp] theorem marshalDashboard_id (d : Chronograf.Dashboard) : (marshalDashboard d).id = d.id := rfl

@[simp] theorem marshalDashboard_organization (d : Chronograf.Dashboard) :
    (marshalDashboard d).organization = d.organization := rfl

@[simp] theorem unmarshalDashboard_id (d : Dashboard) : (unmarshalDashboard d).id = d.id := rfl

@[simp] theorem unmarshalDashboard_organization (d : Dashboard) :
    (unmarshalDashboard d).organization = d.organization := rfl

end Internal
end Chronograf
