/-
# The configuration of the log viewer

Conversion between the configuration the server keeps, where all that is known of a
column is in one list of encodings, and the one the log viewer works
with, as in `logs/utils/config.ts`. An exception is none.

Key definitions: `LogConfig`, `logConfigServerToUI`, `logConfigUIToServer`.
Key theorems: `SeverityLevelOptions.get_value`, `logConfigServerToUI_eq_some`, `logConfigUIToServer_eq_some`.
-/
import Mathlib.Data.List.Sort
import Chronograf.Lib.Checks
import Chronograf.Types

namespace Chronograf
namespace LogViewer

/-! ### Options -/

inductive SeverityFormatOptions
  | dot
  | dotText
  | text
  deriving DecidableEq

inductive SeverityLevelOptions
  | emerg
  | alert
  | crit
  | err
  | warning
  | notice
  | info
  | debug
  deriving DecidableEq

inductive SeverityColorOptions
  | ruby
  | fire
  | curacao
  | tiger
  | pineapple
  | thunder
  | sulfur
  | viridian
  | rainforest
  | honeydew
  | ocean
  | pool
  | laser
  | planet
  | star
  | comet
  | graphite
  | wolf
  | mist
  | pearl
  deriving DecidableEq

namespace SeverityLevelOptions

def value : SeverityLevelOptions → String
  | emerg => "emerg"
  | alert => "alert"
  | crit => "crit"
  | err => "err"
  | warning => "warning"
  | notice => "notice"
  | info => "info"
  | debug => "debug"

def all : List SeverityLevelOptions := [emerg, alert, crit, err, warning, notice, info, debug]

/-- `SeverityLevelOptions[name]`. -/
def get (name : String) : Option SeverityLevelOptions := all.find? fun level => level.value = name

theorem get_value (level : SeverityLevelOptions) : get level.value = some level := by
  cases level <;> decide

theorem value_of_get {name : String} {level : SeverityLevelOptions} (h : get name = some level) : level.value = name := by
  have hfound := List.find?_some h
  exact of_decide_eq_true hfound

end SeverityLevelOptions

namespace SeverityColorOptions

def value : SeverityColorOptions → String
  | ruby => "ruby"
  | fire => "fire"
  | curacao => "curacao"
  | tiger => "tiger"
  | pineapple => "pineapple"
  | thunder => "thunder"
  | sulfur => "sulfur"
  | viridian => "viridian"
  | rainforest => "rainforest"
  | honeydew => "honeydew"
  | ocean => "ocean"
  | pool => "pool"
  | laser => "laser"
  | planet => "planet"
  | star => "star"
  | comet => "comet"
  | graphite => "graphite"
  | wolf => "wolf"
  | mist => "mist"
  | pearl => "pearl"

def all : List SeverityColorOptions :=
  [ruby, fire, curacao, tiger, pineapple, thunder, sulfur, viridian, rainforest, honeydew, ocean, pool, laser, planet, star, comet, graphite, wolf,
    mist, pearl]

/-- `SeverityColorOptions[value]`. -/
def get (name : String) : Option SeverityColorOptions := all.find? fun color => color.value = name

theorem get_value (color : SeverityColorOptions) : get color.value = some color := by
  cases color <;> decide

theorem value_of_get {name : String} {color : SeverityColorOptions} (h : get name = some color) : color.value = name := by
  have hfound := List.find?_some h
  exact of_decide_eq_true hfound

end SeverityColorOptions

/-! ### The log viewer's configuration -/

/-- Neither is defined for what is not among the options. -/
structure SeverityLevelColor where
  level : Option SeverityLevelOptions
  color : Option SeverityColorOptions
  deriving DecidableEq

structure LogsTableColumn where
  internalName : String
  displayName : String
  visible : Bool
  deriving DecidableEq

/-- Without a column for the severity, its format and colors are not defined. -/
structure LogConfig where
  tableColumns : List LogsTableColumn
  severityFormat : Option SeverityFormatOptions
  severityLevelColors : Option (List SeverityLevelColor)
  deriving DecidableEq

/-! ### From the server -/

def sortColumns (columns : List LogViewerColumn) : List LogViewerColumn := columns.insertionSort fun c c' => c.position ≤ c'.position

def columnServerToUI (column : LogViewerColumn) : LogsTableColumn :=
  column.encodings.foldl (fun acc e =>
    if e.type = "visibility" ∧ e.value = "visible" then { acc with visible := true }
    else if e.type = "displayName" then { acc with displayName := e.value }
    else acc) ⟨column.name, "", false⟩

/-- Whether a label of this kind is there. -/
def hasLabel (column : LogViewerColumn) (value : String) : Bool := column.encodings.any fun e => e.type = "label" ∧ e.value = value

def getFormatFromColumn (column : LogViewerColumn) : SeverityFormatOptions :=
  if hasLabel column "text" ∧ hasLabel column "icon" then .dotText else if hasLabel column "text" then .text else .dot

def getLevelColorsFromColumn (column : LogViewerColumn) : List SeverityLevelColor :=
  (column.encodings.filter fun e => e.type = "color").map fun c => ⟨SeverityLevelOptions.get c.name, SeverityColorOptions.get c.value⟩

/-- Of several such columns the last one counts. -/
def ofSeverity {α : Type} (f : LogViewerColumn → α) (columns : List LogViewerColumn) : Option α :=
  columns.foldl (fun acc c => if c.name = "severity" then some (f c) else acc) none

def logConfigServerToUI (serverConfig : LogViewerConfig) : Option LogConfig :=
  if serverConfig.columns = [] then none
  else
    let sortedColumns := sortColumns serverConfig.columns
    some ⟨sortedColumns.map columnServerToUI, ofSeverity getFormatFromColumn sortedColumns, ofSeverity getLevelColorsFromColumn sortedColumns⟩

theorem logConfigServerToUI_eq_some {serverConfig : LogViewerConfig} (h : serverConfig.columns ≠ []) :
    logConfigServerToUI serverConfig = some ⟨(sortColumns serverConfig.columns).map columnServerToUI,
      ofSeverity getFormatFromColumn (sortColumns serverConfig.columns), ofSeverity getLevelColorsFromColumn (sortColumns serverConfig.columns)⟩ :=
  if_neg h

/-! ### To the server -/

def getDisplayAndVisibleEncodings (tableColumn : LogsTableColumn) : List ColumnEncoding :=
  ⟨"visibility", if tableColumn.visible then "visible" else "hidden", ""⟩ ::
    if tableColumn.displayName = "" then [] else [⟨"displayName", tableColumn.displayName, ""⟩]

def labels : SeverityFormatOptions → List String
  | .dot => ["icon"]
  | .text => ["text"]
  | .dotText => ["icon", "text"]

def getLabelEncodings (format : Option SeverityFormatOptions) : Option (List ColumnEncoding) :=
  format.map fun f => (labels f).map fun value => ⟨"label", value, ""⟩

def getColorEncodings (levelColors : Option (List SeverityLevelColor)) : Option (List ColumnEncoding) :=
  levelColors.map fun l => l.map fun c => ⟨"color", (c.color.map SeverityColorOptions.value).getD "", (c.level.map SeverityLevelOptions.value).getD ""⟩

def getFullEncodings (tableColumn : LogsTableColumn) (format : Option SeverityFormatOptions) (severityLevelColors : Option (List SeverityLevelColor)) :
    Option (List ColumnEncoding) :=
  if tableColumn.internalName = "severity" then do
    let labelEncodings ← getLabelEncodings format
    let colorEncodings ← getColorEncodings severityLevelColors
    some (getDisplayAndVisibleEncodings tableColumn ++ labelEncodings ++ colorEncodings)
  else some (getDisplayAndVisibleEncodings tableColumn)

def logConfigUIToServer (config : LogConfig) : Option LogViewerConfig :=
  if config.tableColumns = [] then some ⟨[]⟩
  else do
    let columns ← config.tableColumns.zipIdx.mapM fun e => do
      let encodings ← getFullEncodings e.1 config.severityFormat config.severityLevelColors
      some (LogViewerColumn.mk e.1.internalName e.2 encodings)
    some ⟨columns⟩

/-! ### What is written -/

/-- The encodings of a column where format and colors are defined. -/
def encodingsOf (tableColumn : LogsTableColumn) (format : SeverityFormatOptions) (levelColors : List SeverityLevelColor) : List ColumnEncoding :=
  getDisplayAndVisibleEncodings tableColumn ++
    if tableColumn.internalName = "severity" then
      ((labels format).map fun value => ⟨"label", value, ""⟩) ++
        levelColors.map fun c => ⟨"color", (c.color.map SeverityColorOptions.value).getD "", (c.level.map SeverityLevelOptions.value).getD ""⟩
    else []

/-- The columns are written one by one, in order. -/
theorem logConfigUIToServer_eq_some {config : LogConfig} {format : SeverityFormatOptions} {levelColors : List SeverityLevelColor}
    (h : ∀ c ∈ config.tableColumns, c.internalName = "severity" → config.severityFormat = some format ∧ config.severityLevelColors = some levelColors) :
    logConfigUIToServer config =
      some ⟨config.tableColumns.zipIdx.map fun e => ⟨e.1.internalName, e.2, encodingsOf e.1 format levelColors⟩⟩ := by
  rw [logConfigUIToServer]
  split_ifs with hempty
  · rw [hempty]
    rfl
  have hcolumns : ∀ e ∈ config.tableColumns.zipIdx, (do
      let encodings ← getFullEncodings e.1 config.severityFormat config.severityLevelColors
      some (LogViewerColumn.mk e.1.internalName e.2 encodings)) =
        some (LogViewerColumn.mk e.1.internalName e.2 (encodingsOf e.1 format levelColors)) := by
    intro e he
    rw [getFullEncodings, encodingsOf]
    split_ifs with hname
    · obtain ⟨hformat, hcolors⟩ := h e.1 (List.fst_mem_of_mem_zipIdx he) hname
      rw [hformat, hcolors, ← List.append_assoc]
      rfl
    · rw [List.append_nil]
      rfl
  rw [Option.mapM_eq_map hcolumns]
  rfl

end LogViewer
end Chronograf
