/-
# Dashboards

The dashboard records of `chronograf.go`. Of a query's configuration only the
fields' types and the time shifts are here: the validation reads the types,
the encoding stores the shifts, and neither looks at the rest.
-/
import Chronograf.Stores

namespace Chronograf

/-- A string a Go map is keyed by, with the value under it; the maps of a
dashboard are lists of these with distinct keys. -/
abbrev StringMap (α : Type) := List (String × α)

structure Range where
  upper : ℤ
  lower : ℤ
  deriving DecidableEq

structure TimeShift where
  label : String
  unit : String
  quantity : String
  deriving DecidableEq

/-- A field of a query: its type and the types of its arguments. -/
structure Field where
  type : String
  args : List String
  deriving DecidableEq

structure QueryConfig where
  fields : List Field
  shifts : List TimeShift
  deriving DecidableEq

structure DashboardQuery where
  command : String
  label : String
  range : Option Range
  queryConfig : QueryConfig
  source : String
  shifts : List TimeShift
  deriving DecidableEq

structure Axis where
  bounds : List String
  label : String
  pre : String
  suffix : String
  base : String
  scale : String
  deriving DecidableEq

structure CellColor where
  id : String
  type : String
  hex : String
  name : String
  value : String
  deriving DecidableEq

structure Legend where
  type : String
  orientation : String
  deriving DecidableEq

structure RenamableField where
  internalName : String
  displayName : String
  visible : Bool
  deriving DecidableEq

structure TableOptions where
  verticalTimeAxis : Bool
  sortBy : RenamableField
  wrapping : String
  fixFirstColumn : Bool
  deriving DecidableEq

structure DecimalPlaces where
  isEnforced : Bool
  digits : ℤ
  deriving DecidableEq

structure DashboardCell where
  id : String
  x : ℤ
  y : ℤ
  w : ℤ
  h : ℤ
  name : String
  queries : List DashboardQuery
  axes : StringMap Axis
  type : String
  cellColors : List CellColor
  legend : Legend
  tableOptions : TableOptions
  fieldOptions : List RenamableField
  timeFormat : String
  decimalPlaces : DecimalPlaces
  deriving DecidableEq

structure TemplateValue where
  value : String
  type : String
  selected : Bool
  key : String
  deriving DecidableEq

structure TemplateQuery where
  command : String
  db : String
  rp : String
  measurement : String
  tagKey : String
  fieldKey : String
  deriving DecidableEq

/-- A template, the `TemplateVar` in it spelled out. -/
structure Template where
  var : String
  values : List TemplateValue
  id : String
  type : String
  label : String
  query : Option TemplateQuery
  deriving DecidableEq

structure Dashboard where
  id : ℤ
  cells : List DashboardCell
  templates : List Template
  name : String
  organization : String
  deriving DecidableEq

/-- `chronograf.DashboardsStore`. -/
abbrev DashboardsStore (σ : Type) := ResourcesStore σ Dashboard ℤ

end Chronograf
