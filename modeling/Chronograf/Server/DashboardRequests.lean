/-
# What a dashboard request may contain

The checks of `server/cells.go`, `server/templates.go`, `server/dashboards.go`
and `server/queryconfig.go` on the body of a request. They also correct it: a
cell gets a size, its queries the time shifts of their configurations, and a
dashboard the default organization when it names none.

Key definitions: `validDashboardCellRequest`, `validTemplateRequest`,
`validDashboardRequest`.
Key theorems: `validDashboardRequest_ok`, `validDashboardRequest_ok_iff`,
`validDashboardCellRequest_idem`.
-/
import Chronograf.Dashboard
import Chronograf.Lib.Checks

namespace Chronograf
namespace Server

open Except (bind_ok_iff forM_ok_iff mapM_ok_iff)

/-! ### Queries -/

def validFieldTypes : List String := ["func", "field", "integer", "number", "regex", "wildcard"]

def validateQueryConfig (q : QueryConfig) : Except Error Unit := q.fields.forM fun fld =>
  if fld.type ∈ validFieldTypes ∧ ∀ arg ∈ fld.args, arg ∈ validFieldTypes then .ok ()
  else .error (.errorf ("invalid field type \"" ++ fld.type ++
    "\" ; expect func, field, integer, number, regex, wildcard"))

/-! ### Cells -/

def defaultWidth : ℤ := 4
def defaultHeight : ℤ := 4

def correctWidthHeight (c : DashboardCell) : DashboardCell :=
  { c with
    w := if c.w < 1 then defaultWidth else c.w
    h := if c.h < 1 then defaultHeight else c.h }

def moveTimeShift (c : DashboardCell) : DashboardCell :=
  { c with queries := c.queries.map fun query => { query with shifts := query.queryConfig.shifts } }

/-- The axes of a map come in no order; every fault has the same error. -/
def hasCorrectAxes (c : DashboardCell) : Except Error Unit := c.axes.forM fun (label, axis) =>
  if label ∈ ["x", "y", "y2"] ∧ axis.scale ∈ ["linear", "log", ""] ∧ axis.base ∈ ["10", "2", ""] then .ok ()
  else .error .errInvalidAxis

def hasCorrectColors (c : DashboardCell) : Except Error Unit := c.cellColors.forM fun color =>
  if color.type ∉ ["max", "min", "threshold", "text", "background", "scale"] then .error .errInvalidColorType
  else if color.hex.utf8ByteSize ≠ 7 then .error .errInvalidColor
  else .ok ()

def hasCorrectLegend (c : DashboardCell) : Except Error Unit :=
  if c.legend.type = "" ∧ c.legend.orientation = "" then .ok ()
  else if c.legend.type = "" ∨ c.legend.orientation = "" then .error .errInvalidLegend
  else if c.legend.orientation ∉ ["top", "bottom", "right", "left"] then .error .errInvalidLegendOrient
  else if c.legend.type ∉ ["static"] then .error .errInvalidLegendType
  else .ok ()

def validDashboardCellRequest (c : DashboardCell) : Except Error DashboardCell := do
  let c := correctWidthHeight c
  c.queries.forM fun q => validateQueryConfig q.queryConfig
  let c := moveTimeShift c
  hasCorrectAxes c
  hasCorrectColors c
  hasCorrectLegend c
  pure c

/-! ### Templates -/

def templateTypes : List String :=
  ["constant", "csv", "fieldKeys", "tagKeys", "tagValues", "measurements", "databases", "map", "influxql", "text"]

def templateValueTypes : List String :=
  ["csv", "map", "fieldKey", "tagKey", "tagValue", "measurement", "database", "constant", "influxql"]

def validTemplateRequest (template : Template) : Except Error Unit := do
  if template.type ∉ templateTypes then .error (.errorf ("Unknown template type " ++ template.type))
  else do
    template.values.forM fun v =>
      if v.type ∉ templateValueTypes then .error (.errorf ("Unknown template variable type " ++ v.type))
      else if template.type = "map" ∧ v.key = "" then
        .error (.errorf "Templates of type 'map' require a 'key'")
      else .ok ()
    if template.type = "influxql" ∧ template.query = none then
      .error (.errorf "No query set for template of type 'influxql'")
    else .ok ()

/-! ### Dashboards -/

def dashboardDefaults (d : Dashboard) : Dashboard := { d with cells := d.cells.map correctWidthHeight }

def validDashboardRequest (d : Dashboard) (defaultOrgID : String) : Except Error Dashboard := do
  let d := if d.organization = "" then { d with organization := defaultOrgID } else d
  let cells ← d.cells.mapM validDashboardCellRequest
  d.templates.forM validTemplateRequest
  pure (dashboardDefaults { d with cells := cells })

/-! ### What passes -/

variable {c c' : DashboardCell} {d d' : Dashboard} {defaultOrgID : String}

/-- The organization a valid request names: the default one when it is blank. -/
def requestedOrganization (d : Dashboard) (defaultOrgID : String) : String :=
  if d.organization = "" then defaultOrgID else d.organization

/-- What the checks ask of the body of a dashboard request. -/
structure ValidParts (d : Dashboard) : Prop where
  cells : ∀ c ∈ d.cells, ∃ c', validDashboardCellRequest c = .ok c'
  templates : ∀ t ∈ d.templates, validTemplateRequest t = .ok ()

theorem validDashboardRequest_eq (d : Dashboard) (defaultOrgID : String) :
    validDashboardRequest d defaultOrgID = (do
      let cells ← d.cells.mapM validDashboardCellRequest
      d.templates.forM validTemplateRequest
      pure (dashboardDefaults { d with organization := requestedOrganization d defaultOrgID, cells := cells })) := by
  unfold validDashboardRequest requestedOrganization
  split_ifs <;> rfl

/-- The checks look at the cells and the templates only. -/
theorem validDashboardRequest_ok_iff : (∃ d', validDashboardRequest d defaultOrgID = .ok d') ↔ ValidParts d := by
  rw [validDashboardRequest_eq]
  simp only [bind_ok_iff]
  constructor
  · rintro ⟨d', cells, hcells, ⟨⟩, htemplates, -⟩
    exact ⟨mapM_ok_iff.mp ⟨cells, hcells⟩, forM_ok_iff.mp htemplates⟩
  · rintro ⟨hcells, htemplates⟩
    obtain ⟨cells, hcells⟩ := mapM_ok_iff.mpr hcells
    exact ⟨_, cells, hcells, (), forM_ok_iff.mpr htemplates, rfl⟩

/-- A valid request keeps its ID, and its organization if it names one. -/
theorem validDashboardRequest_ok (h : validDashboardRequest d defaultOrgID = .ok d') :
    d'.id = d.id ∧ d'.organization = requestedOrganization d defaultOrgID := by
  rw [validDashboardRequest_eq] at h
  obtain ⟨cells, -, h⟩ := bind_ok_iff.mp h
  obtain ⟨⟨⟩, -, h⟩ := bind_ok_iff.mp h
  obtain rfl := Except.ok.inj h
  exact ⟨rfl, rfl⟩

/-! ### Corrected once, correct -/

theorem correctWidthHeight_idem (c : DashboardCell) :
    correctWidthHeight (correctWidthHeight c) = correctWidthHeight c := by
  have hw : ¬ (correctWidthHeight c).w < 1 := by
    unfold correctWidthHeight defaultWidth
    dsimp only
    split_ifs <;> omega
  have hh : ¬ (correctWidthHeight c).h < 1 := by
    unfold correctWidthHeight defaultHeight
    dsimp only
    split_ifs <;> omega
  rw [correctWidthHeight, if_neg hw, if_neg hh]

theorem moveTimeShift_idem (c : DashboardCell) : moveTimeShift (moveTimeShift c) = moveTimeShift c := by
  unfold moveTimeShift
  rw [List.map_map]
  rfl

/-- The corrected cell passes the checks as it is. -/
theorem validDashboardCellRequest_idem (h : validDashboardCellRequest c = .ok c') :
    validDashboardCellRequest c' = .ok c' := by
  unfold validDashboardCellRequest at h ⊢
  obtain ⟨⟨⟩, hqueries, h⟩ := bind_ok_iff.mp h
  obtain ⟨⟨⟩, haxes, h⟩ := bind_ok_iff.mp h
  obtain ⟨⟨⟩, hcolors, h⟩ := bind_ok_iff.mp h
  obtain ⟨⟨⟩, hlegend, h⟩ := bind_ok_iff.mp h
  obtain rfl := Except.ok.inj h
  have hsize : correctWidthHeight (moveTimeShift (correctWidthHeight c)) = moveTimeShift (correctWidthHeight c) :=
    congrArg moveTimeShift (correctWidthHeight_idem c)
  have hconfigs : (moveTimeShift (correctWidthHeight c)).queries.forM (fun q => validateQueryConfig q.queryConfig) =
      .ok () := by
    rw [forM_ok_iff] at hqueries ⊢
    intro q hq
    obtain ⟨q', hq', rfl⟩ := List.mem_map.mp hq
    exact hqueries q' hq'
  dsimp only
  rw [hsize, moveTimeShift_idem, hconfigs, haxes, hcolors, hlegend]
  rfl

end Server
end Chronograf
