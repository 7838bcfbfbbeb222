/-
# Log viewer configurations there and back

What the log viewer writes it reads again, and the server accepts it unless
the display name of the severity is a label of its format, which the server
then counts twice. Of what the server accepts, the log viewer keeps order, names,
visibility and display names, and the severity's colors, and its format if there is
one; labels and colors of other columns are lost.

Key definitions: `Severe`, `KnownOptions`, `ColumnView`, `RoundTrip`, `Preserved`.
Key theorems: `sortColumns_written`, `validColumn_written`, `roundTrip_iff`, `view_written`, `preserved_iff`, `config_iff`.
-/
import Chronograf.Server.OrgConfig
import Chronograf.Bolt.Mappings

namespace Chronograf
namespace LogViewer

/-! ### What is promised -/

/-- A configuration of the log viewer with a severity column and what belongs to it. -/
structure Severe (c : LogConfig) : Prop where
  names : (c.tableColumns.map LogsTableColumn.internalName).Nodup
  severity : "severity" ∈ c.tableColumns.map LogsTableColumn.internalName
  format : c.severityFormat.isSome
  colors : ∃ levelColors, c.severityLevelColors = some levelColors ∧ ∀ lc ∈ levelColors, lc.level.isSome ∧ lc.color.isSome

/-- It is written, read as it was, and accepted. -/
def RoundTrip (c : LogConfig) : Prop :=
  ∃ s, logConfigUIToServer c = some s ∧ logConfigServerToUI s = some c ∧ validLogViewerConfig s = .ok ()

def KnownLabel (e : ColumnEncoding) : Prop := e.value = "icon" ∨ e.value = "text"

def KnownColor (e : ColumnEncoding) : Prop := (SeverityLevelOptions.get e.name).isSome ∧ (SeverityColorOptions.get e.value).isSome

instance (e : ColumnEncoding) : Decidable (KnownLabel e) := inferInstanceAs (Decidable (_ ∨ _))

instance (e : ColumnEncoding) : Decidable (KnownColor e) := inferInstanceAs (Decidable (_ ∧ _))

/-- Labels and colors of the options. -/
def KnownOptions (s : LogViewerConfig) : Prop :=
  ∀ clm ∈ s.columns, ∀ e ∈ clm.encodings, (e.type = "label" → KnownLabel e) ∧ (e.type = "color" → KnownColor e)

instance (s : LogViewerConfig) : Decidable (KnownOptions s) := inferInstanceAs (Decidable (∀ clm ∈ s.columns, ∀ e ∈ clm.encodings, _ ∧ _))

/-- What the encodings say of a column. -/
structure ColumnView where
  name : String
  visible : Bool
  displayName : String
  format : Option SeverityFormatOptions
  colors : List (String × String)
  deriving DecidableEq

end LogViewer

namespace LogViewerColumn

open LogViewer

variable (clm : LogViewerColumn)

def visible : Bool := clm.encodings.any fun e => e.type = "visibility" ∧ e.value = "visible"

def displayName : String := (((clm.encodings.filter fun e => e.type = "displayName").getLast?).map ColumnEncoding.value).getD ""

def format : Option SeverityFormatOptions := if hasLabel clm "text" ∨ hasLabel clm "icon" then some (getFormatFromColumn clm) else none

def colors : List (String × String) := (clm.encodings.filter fun e => e.type = "color").map fun e => (e.name, e.value)

def view : ColumnView := ⟨clm.name, clm.visible, clm.displayName, clm.format, clm.colors⟩

end LogViewerColumn

/-- The columns in their order. -/
def LogViewerConfig.views (s : LogViewerConfig) : List LogViewer.ColumnView := (LogViewer.sortColumns s.columns).map LogViewerColumn.view

namespace LogViewer

/-- It is read, written again, and says the same then. -/
def Preserved (s : LogViewerConfig) : Prop :=
  ∃ ui, logConfigServerToUI s = some ui ∧ ∃ back, logConfigUIToServer ui = some back ∧ back.views = s.views

/-! ### What is written, in its order -/

/-- The columns written for these. -/
def written (columns : List LogsTableColumn) (format : SeverityFormatOptions) (levelColors : List SeverityLevelColor) : List LogViewerColumn :=
  columns.zipIdx.map fun e => ⟨e.1.internalName, e.2, encodingsOf e.1 format levelColors⟩

section Written

variable {columns : List LogsTableColumn} {format : SeverityFormatOptions} {levelColors : List SeverityLevelColor}

theorem names_written (columns : List LogsTableColumn) (format : SeverityFormatOptions) (levelColors : List SeverityLevelColor) :
    (written columns format levelColors).map LogViewerColumn.name = columns.map LogsTableColumn.internalName := by
  have hzip : columns.zipIdx.map Prod.fst = columns := List.zipIdx_map_fst 0 columns
  rw [written, List.map_map]
  nth_rewrite 2 [← hzip]
  rw [List.map_map]
  rfl

theorem positions_written : (written columns format levelColors).map LogViewerColumn.position = (List.range columns.length).map Nat.cast := by
  have hzip : columns.zipIdx.map Prod.snd = List.range columns.length := by
    rw [List.zipIdx_map_snd, List.range_eq_range']
  rw [← hzip, written, List.map_map, List.map_map]
  rfl

theorem positions_increase : (written columns format levelColors).Pairwise fun c c' => c.position < c'.position := by
  refine List.pairwise_map.mp ?_
  rw [positions_written, List.pairwise_map]
  exact List.pairwise_lt_range.imp fun h => Int.ofNat_lt.mpr h

theorem sortColumns_written : sortColumns (written columns format levelColors) = written columns format levelColors :=
  List.Pairwise.insertionSort_eq (positions_increase.imp fun h => h.le)

theorem mem_written {clm : LogViewerColumn} (h : clm ∈ written columns format levelColors) :
    ∃ c ∈ columns, clm.name = c.internalName ∧ clm.encodings = encodingsOf c format levelColors := by
  obtain ⟨e, he, rfl⟩ := List.mem_map.mp h
  exact ⟨e.1, List.fst_mem_of_mem_zipIdx he, rfl, rfl⟩

end Written

/-! ### What the encodings of a column say -/

/-- The last display name counts, and any visibility. -/
theorem columnServerToUI_eq (clm : LogViewerColumn) : columnServerToUI clm = ⟨clm.name, clm.displayName, clm.visible⟩ := by
  have hfold : ∀ (es : List ColumnEncoding) (acc : LogsTableColumn),
      es.foldl (fun acc e =>
        if e.type = "visibility" ∧ e.value = "visible" then { acc with visible := true }
        else if e.type = "displayName" then { acc with displayName := e.value }
        else acc) acc =
      ⟨acc.internalName, (((es.filter fun e => e.type = "displayName").getLast?).map ColumnEncoding.value).getD acc.displayName,
        acc.visible || es.any fun e => e.type = "visibility" ∧ e.value = "visible"⟩ := by
    intro es
    induction es with
    | nil =>
      intro acc
      rw [List.any_nil, Bool.or_false]
      rfl
    | cons e es ih =>
      intro acc
      rw [List.foldl_cons, ih, List.filter_cons, List.any_cons]
      by_cases hvisible : e.type = "visibility" ∧ e.value = "visible"
      · have hdisplay : ¬e.type = "displayName" := fun h => absurd (hvisible.1.symm.trans h) (by decide)
        simp [hvisible]
      · by_cases hdisplay : e.type = "displayName"
        · simp [hdisplay, List.getLast?_cons]
        · simp [hvisible, hdisplay]
  exact hfold clm.encodings ⟨clm.name, "", false⟩

/-- What a written column says. -/
def viewOf (c : LogsTableColumn) (format : SeverityFormatOptions) (levelColors : List SeverityLevelColor) : ColumnView :=
  ⟨c.internalName, c.visible, c.displayName, if c.internalName = "severity" then some format else none,
    if c.internalName = "severity" then
      levelColors.map fun lc => ((lc.level.map SeverityLevelOptions.value).getD "", (lc.color.map SeverityColorOptions.value).getD "")
    else []⟩

section View

variable {clm : LogViewerColumn} {c : LogsTableColumn} {format : SeverityFormatOptions} {levelColors : List SeverityLevelColor}

theorem visible_written (h : clm.encodings = encodingsOf c format levelColors) : clm.visible = c.visible := by
  rw [LogViewerColumn.visible, h, encodingsOf, getDisplayAndVisibleEncodings]
  by_cases hname : c.internalName = "severity" <;> by_cases hempty : c.displayName = "" <;> cases hvisible : c.visible <;>
    simp [hname, hempty, Function.comp_def]

theorem displayName_written (h : clm.encodings = encodingsOf c format levelColors) : clm.displayName = c.displayName := by
  rw [LogViewerColumn.displayName, h, encodingsOf, getDisplayAndVisibleEncodings]
  split_ifs with hempty hname <;> simp [*, List.filter_map, Function.comp_def]

theorem hasLabel_written (h : clm.encodings = encodingsOf c format levelColors) (value : String) :
    hasLabel clm value = decide (c.internalName = "severity" ∧ value ∈ labels format) := by
  have hfirst : ((getDisplayAndVisibleEncodings c).any fun e => e.type = "label" ∧ e.value = value) = false := by
    rw [getDisplayAndVisibleEncodings]
    by_cases hempty : c.displayName = "" <;> simp [hempty]
  rw [hasLabel, h, encodingsOf, List.any_append, hfirst, Bool.false_or]
  by_cases hname : c.internalName = "severity"
  · rw [if_pos hname, List.any_append, List.any_map, List.any_map]
    simp [Function.comp_def, hname, List.any_eq]
  · simp [hname]

theorem format_written (h : clm.encodings = encodingsOf c format levelColors) :
    clm.format = if c.internalName = "severity" then some format else none := by
  rw [LogViewerColumn.format, getFormatFromColumn, hasLabel_written h, hasLabel_written h]
  by_cases hname : c.internalName = "severity"
  · cases format <;> simp [hname, labels]
  · simp [hname]

theorem colors_written (h : clm.encodings = encodingsOf c format levelColors) : clm.colors =
    if c.internalName = "severity" then
      levelColors.map fun lc => ((lc.level.map SeverityLevelOptions.value).getD "", (lc.color.map SeverityColorOptions.value).getD "")
    else [] := by
  rw [LogViewerColumn.colors, h, encodingsOf, getDisplayAndVisibleEncodings]
  by_cases hname : c.internalName = "severity" <;> by_cases hempty : c.displayName = "" <;> simp [hname, hempty, List.filter_map, Function.comp_def]

theorem view_written (hname : clm.name = c.internalName) (h : clm.encodings = encodingsOf c format levelColors) :
    clm.view = viewOf c format levelColors := by
  rw [LogViewerColumn.view, hname, visible_written h, displayName_written h, format_written h, colors_written h]
  rfl

end View

/-! ### What is accepted of what is written -/

theorem value_not_label (color : SeverityColorOptions) : color.value ≠ "icon" ∧ color.value ≠ "text" := by
  cases color <;> decide

theorem labels_spec (format : SeverityFormatOptions) :
    (labels format).count "icon" ≤ 1 ∧ (labels format).count "text" ≤ 1 ∧ (labels format).count "icon" + (labels format).count "text" ≠ 0 ∧
      ∀ value ∈ labels format, value = "icon" ∨ value = "text" := by
  cases format <;> decide

section Accepted

variable {clm : LogViewerColumn} {c : LogsTableColumn} {format : SeverityFormatOptions} {levelColors : List SeverityLevelColor}

theorem value_visibility {e : ColumnEncoding} (he : e ∈ encodingsOf c format levelColors) (htype : e.type = "visibility") :
    e.value = "visible" ∨ e.value = "hidden" := by
  have hdisplay : "displayName" ≠ "visibility" := by decide
  have hlabel : "label" ≠ "visibility" := by decide
  have hcolor : "color" ≠ "visibility" := by decide
  rw [encodingsOf, getDisplayAndVisibleEncodings] at he
  rcases List.mem_append.mp he with he | he
  · rcases List.mem_cons.mp he with rfl | he
    · show (if c.visible then "visible" else "hidden") = "visible" ∨ _
      split_ifs
      · exact .inl rfl
      · exact .inr rfl
    · split_ifs at he
      · exact absurd he List.not_mem_nil
      · rw [List.mem_singleton.mp he] at htype
        exact absurd htype hdisplay
  · split_ifs at he
    · rcases List.mem_append.mp he with he | he
      · obtain ⟨value, -, rfl⟩ := List.mem_map.mp he
        exact absurd htype hlabel
      · obtain ⟨lc, -, rfl⟩ := List.mem_map.mp he
        exact absurd htype hcolor
    · exact absurd he List.not_mem_nil

theorem countP_visibility (h : clm.encodings = encodingsOf c format levelColors) : clm.encodings.countP isVisibility = 1 := by
  rw [h, encodingsOf, getDisplayAndVisibleEncodings]
  by_cases hname : c.internalName = "severity" <;> by_cases hempty : c.displayName = "" <;>
    simp [hname, hempty, isVisibility, List.countP_eq_zero]

/-- A label is counted once for the format, and once where it is the display name. -/
theorem countP_value (h : clm.encodings = encodingsOf c format levelColors) (hname : c.internalName = "severity") {value : String}
    (hvalue : value = "icon" ∨ value = "text") :
    clm.encodings.countP (hasValue value) = (if c.displayName = value then 1 else 0) + (labels format).count value := by
  have hcolors : (levelColors.map fun lc => ColumnEncoding.mk "color" ((lc.color.map SeverityColorOptions.value).getD "")
      ((lc.level.map SeverityLevelOptions.value).getD "")).countP (hasValue value) = 0 := by
    rw [List.countP_eq_zero]
    intro e he
    obtain ⟨⟨level, color⟩, -, rfl⟩ := List.mem_map.mp he
    rw [hasValue, decide_eq_true_iff]
    cases color with
    | none =>
      have hempty : "" ≠ "icon" ∧ "" ≠ "text" := by decide
      rcases hvalue with rfl | rfl
      · exact hempty.1
      · exact hempty.2
    | some color =>
      rcases hvalue with rfl | rfl
      · exact (value_not_label color).1
      · exact (value_not_label color).2
  have hlabels : ((labels format).map fun v => ColumnEncoding.mk "label" v "").countP (hasValue value) = (labels format).count value := by
    rw [List.countP_map, List.count]
    rfl
  have hfirst : (getDisplayAndVisibleEncodings c).countP (hasValue value) = if c.displayName = value then 1 else 0 := by
    have hvisible : (if c.visible then "visible" else "hidden") ≠ value := by
      rcases hvalue with rfl | rfl <;> split_ifs <;> decide
    have hempty : "" ≠ value := by rcases hvalue with rfl | rfl <;> decide
    rw [getDisplayAndVisibleEncodings, List.countP_cons]
    by_cases hdisplay : c.displayName = ""
    · simp [hdisplay, hasValue, hvisible, hempty]
    · simp [hdisplay, hasValue, hvisible]
  rw [h, encodingsOf, if_pos hname, List.countP_append, List.countP_append, hfirst, hlabels, hcolors, Nat.add_zero]

theorem validColumn_written (hname : clm.name = c.internalName) (h : clm.encodings = encodingsOf c format levelColors) :
    ValidColumn clm ↔ (c.internalName = "severity" → c.displayName ∉ labels format) := by
  obtain ⟨hicons, htexts, hsome, hlabels⟩ := labels_spec format
  constructor
  · intro hvalid hsevere hmem
    have hcount : 0 < (labels format).count c.displayName := List.count_pos_iff.mpr hmem
    rcases hlabels _ hmem with hicon | htext
    · have hle := hvalid.icon (hname.trans hsevere)
      rw [countP_value h hsevere (.inl rfl), if_pos hicon, ← hicon] at hle
      omega
    · have hle := hvalid.text (hname.trans hsevere)
      rw [countP_value h hsevere (.inr rfl), if_pos htext, ← htext] at hle
      omega
  · intro hother
    have hle : ∀ {value : String}, value = "icon" ∨ value = "text" → (labels format).count value ≤ 1 → c.internalName = "severity" →
        clm.encodings.countP (hasValue value) ≤ 1 := by
      intro value hvalue hone hsevere
      rw [countP_value h hsevere hvalue]
      split_ifs with hdisplay
      · rw [List.count_eq_zero_of_not_mem (hdisplay ▸ hother hsevere)]
      · rwa [Nat.zero_add]
    refine ⟨fun e he htype => ?_, countP_visibility h, fun hsevere => ?_, fun hsevere => ?_, fun hsevere => ?_⟩
    · exact value_visibility (h ▸ he) htype
    · rw [countP_value h (hname ▸ hsevere) (.inl rfl), countP_value h (hname ▸ hsevere) (.inr rfl)]
      omega
    · exact hle (.inl rfl) hicons (hname ▸ hsevere)
    · exact hle (.inr rfl) htexts (hname ▸ hsevere)

end Accepted

/-! ### There and back -/

theorem foldl_severity {α : Type} {f : LogViewerColumn → α} {x : α} : ∀ {columns : List LogViewerColumn} {acc : Option α},
    (∀ c ∈ columns, c.name = "severity" → f c = x) → (acc = some x ∨ ∃ c ∈ columns, c.name = "severity") →
    columns.foldl (fun acc c => if c.name = "severity" then some (f c) else acc) acc = some x
  | [], _, _, h => h.resolve_right fun ⟨_, hc, _⟩ => absurd hc List.not_mem_nil
  | c :: columns, acc, hall, h => by
    rw [List.foldl_cons]
    refine foldl_severity (fun c' hc' => hall c' (List.mem_cons_of_mem _ hc')) ?_
    split_ifs with hname
    · exact .inl (congrArg some (hall c List.mem_cons_self hname))
    · refine h.imp_right fun ⟨c', hc', hname'⟩ => ⟨c', ?_, hname'⟩
      exact (List.mem_cons.mp hc').resolve_left fun heq => hname (heq ▸ hname')

theorem ofSeverity_eq {α : Type} {f : LogViewerColumn → α} {columns : List LogViewerColumn} {c : LogViewerColumn}
    (hnodup : (columns.map LogViewerColumn.name).Nodup) (hc : c ∈ columns) (hname : c.name = "severity") : ofSeverity f columns = some (f c) := by
  refine foldl_severity (fun c' hc' hname' => ?_) (.inr ⟨c, hc, hname⟩)
  rw [List.inj_on_of_nodup_map hnodup hc' hc (hname'.trans hname.symm)]

/-- What the log viewer writes is read as it was, and accepted unless the severity's display name is a label of its format. -/
theorem roundTrip_iff {c : LogConfig} (hc : Severe c) : RoundTrip c ↔
    ∀ column ∈ c.tableColumns, column.internalName = "severity" → ∀ format, c.severityFormat = some format → column.displayName ∉ labels format := by
  obtain ⟨format, hformat⟩ := Option.isSome_iff_exists.mp hc.format
  obtain ⟨levelColors, hcolors, hknown⟩ := hc.colors
  have hwrite : logConfigUIToServer c = some ⟨written c.tableColumns format levelColors⟩ :=
    logConfigUIToServer_eq_some fun _ _ _ => ⟨hformat, hcolors⟩
  obtain ⟨severity, hseverity, hname⟩ := List.mem_map.mp hc.severity
  have hnames : ((written c.tableColumns format levelColors).map LogViewerColumn.name).Nodup := by
    rw [names_written]
    exact hc.names
  have hne : written c.tableColumns format levelColors ≠ [] := fun h => by
    have hlength := congrArg (List.length ∘ List.map LogViewerColumn.name) h
    rw [Function.comp_apply, names_written] at hlength
    exact List.ne_nil_of_mem hseverity (List.map_eq_nil_iff.mp (List.eq_nil_of_length_eq_zero hlength))
  obtain ⟨clm, hclm, hclmname⟩ : ∃ clm ∈ written c.tableColumns format levelColors, clm.name = "severity" := by
    refine List.mem_map.mp ?_
    rw [names_written]
    exact hc.severity
  have hread : logConfigServerToUI ⟨written c.tableColumns format levelColors⟩ = some c := by
    obtain ⟨column, hcolumn, hcolumnname, hencodings⟩ := mem_written hclm
    have hsevere : column.internalName = "severity" := hcolumnname ▸ hclmname
    have hcolumns : (written c.tableColumns format levelColors).map columnServerToUI = c.tableColumns := by
      have hzip : c.tableColumns.zipIdx.map Prod.fst = c.tableColumns := List.zipIdx_map_fst 0 _
      rw [written, List.map_map]
      refine (List.map_congr_left fun e _ => ?_).trans hzip
      rw [Function.comp_apply, columnServerToUI_eq, displayName_written rfl, visible_written rfl]
    have hreadFormat : getFormatFromColumn clm = format := by
      have hview := format_written hencodings
      rw [if_pos hsevere, LogViewerColumn.format] at hview
      split_ifs at hview
      exact Option.some_inj.mp hview
    have hreadColors : getLevelColorsFromColumn clm = levelColors := by
      have hcolored : clm.encodings.filter (fun e => e.type = "color") = levelColors.map fun lc =>
          ColumnEncoding.mk "color" ((lc.color.map SeverityColorOptions.value).getD "") ((lc.level.map SeverityLevelOptions.value).getD "") := by
        rw [hencodings, encodingsOf, getDisplayAndVisibleEncodings]
        by_cases hempty : column.displayName = "" <;> simp [hsevere, hempty, List.filter_map, Function.comp_def]
      rw [getLevelColorsFromColumn, hcolored, List.map_map]
      refine (List.map_congr_left fun lc hlc => ?_).trans (List.map_id' _)
      obtain ⟨level, color⟩ := lc
      obtain ⟨hlevel, hcolor⟩ := hknown _ hlc
      obtain ⟨level, rfl⟩ := Option.isSome_iff_exists.mp hlevel
      obtain ⟨color, rfl⟩ := Option.isSome_iff_exists.mp hcolor
      rw [Function.comp_apply]
      exact congrArg₂ SeverityLevelColor.mk (SeverityLevelOptions.get_value level) (SeverityColorOptions.get_value color)
    have hcolumns_ne : (LogViewerConfig.mk (written c.tableColumns format levelColors)).columns ≠ [] := hne
    rw [logConfigServerToUI_eq_some hcolumns_ne, sortColumns_written, hcolumns, ofSeverity_eq hnames hclm hclmname, ofSeverity_eq hnames hclm hclmname, hreadFormat,
      hreadColors, ← hformat, ← hcolors]
  have hvalid : validLogViewerConfig ⟨written c.tableColumns format levelColors⟩ = .ok () ↔
      ∀ column ∈ c.tableColumns, column.internalName = "severity" → column.displayName ∉ labels format := by
    rw [validLogViewerConfig_iff, and_iff_right hne, and_iff_right hnames, and_iff_right]
    · constructor
      · intro hall column hcolumn
        have hzip : c.tableColumns.zipIdx.map Prod.fst = c.tableColumns := List.zipIdx_map_fst 0 _
        rw [← hzip] at hcolumn
        obtain ⟨e, he, rfl⟩ := List.mem_map.mp hcolumn
        exact (validColumn_written rfl rfl).mp (hall _ (List.mem_map_of_mem he))
      · intro hall clm' hclm'
        obtain ⟨column, hcolumn, hcolumnname, hencodings⟩ := mem_written hclm'
        exact (validColumn_written hcolumnname hencodings).mpr (hall column hcolumn)
    · exact List.pairwise_map.mpr (positions_increase.imp fun h => h.ne)
  constructor
  · rintro ⟨s, hs, -, haccepted⟩ column hcolumn hsevere format' hformat'
    obtain rfl := Option.some_inj.mp (hs.symm.trans hwrite)
    obtain rfl := Option.some_inj.mp (hformat.symm.trans hformat')
    exact hvalid.mp haccepted column hcolumn hsevere
  · intro hall
    exact ⟨_, hwrite, hread, hvalid.mpr fun column hcolumn hsevere => hall column hcolumn hsevere format hformat⟩

/-! ### Back and there -/

/-- The severity has a label, and other columns have neither labels nor colors. -/
def Keeps (clm : LogViewerColumn) : Prop := if clm.name = "severity" then clm.format ≠ none else clm.format = none ∧ clm.colors = []

instance (clm : LogViewerColumn) : Decidable (Keeps clm) :=
  inferInstanceAs (Decidable (if clm.name = "severity" then clm.format ≠ none else clm.format = none ∧ clm.colors = []))

/-- The colors of the options are written as they were. -/
theorem colors_of_known {clm : LogViewerColumn} (h : ∀ e ∈ clm.encodings, e.type = "color" → KnownColor e) :
    (getLevelColorsFromColumn clm).map (fun lc => ((lc.level.map SeverityLevelOptions.value).getD "", (lc.color.map SeverityColorOptions.value).getD "")) =
      clm.colors := by
  rw [getLevelColorsFromColumn, LogViewerColumn.colors, List.map_map]
  refine List.map_congr_left fun e he => ?_
  obtain ⟨hmem, htype⟩ := List.mem_filter.mp he
  obtain ⟨hlevel, hcolor⟩ := h e hmem (of_decide_eq_true htype)
  obtain ⟨level, hlevel⟩ := Option.isSome_iff_exists.mp hlevel
  obtain ⟨color, hcolor⟩ := Option.isSome_iff_exists.mp hcolor
  rw [Function.comp_apply, hlevel, hcolor]
  exact congrArg₂ Prod.mk (SeverityLevelOptions.value_of_get hlevel) (SeverityColorOptions.value_of_get hcolor)

theorem viewOf_eq_view_iff {clm : LogViewerColumn} (hknown : ∀ e ∈ clm.encodings, e.type = "color" → KnownColor e)
    {format : SeverityFormatOptions} {levelColors : List SeverityLevelColor}
    (h : clm.name = "severity" → format = getFormatFromColumn clm ∧ levelColors = getLevelColorsFromColumn clm) :
    viewOf (columnServerToUI clm) format levelColors = clm.view ↔ Keeps clm := by
  rw [columnServerToUI_eq, viewOf, LogViewerColumn.view, ColumnView.mk.injEq, Keeps]
  simp only [true_and]
  by_cases hname : clm.name = "severity"
  · obtain ⟨rfl, rfl⟩ := h hname
    rw [if_pos hname, if_pos hname, if_pos hname, colors_of_known hknown, and_iff_left rfl, LogViewerColumn.format]
    split_ifs
    · exact iff_of_true rfl nofun
    · exact iff_of_false nofun fun h => h rfl
  · rw [if_neg hname, if_neg hname, if_neg hname]
    exact and_congr eq_comm eq_comm

/-- The configuration says the same again exactly where the severity has a label, and no other column labels or colors. -/
theorem preserved_iff {s : LogViewerConfig} (hvalid : validLogViewerConfig s = .ok ()) (hknown : KnownOptions s) :
    Preserved s ↔ ∀ clm ∈ s.columns, Keeps clm := by
  obtain ⟨hne, hnames, -, -⟩ := (validLogViewerConfig_iff s).mp hvalid
  have hperm : (sortColumns s.columns).Perm s.columns := List.perm_insertionSort _ _
  have hsorted : ((sortColumns s.columns).map LogViewerColumn.name).Nodup := (hperm.map _).nodup_iff.mpr hnames
  have hui := logConfigServerToUI_eq_some hne
  obtain ⟨format, levelColors, hsevere⟩ : ∃ format levelColors, ∀ clm ∈ sortColumns s.columns, clm.name = "severity" →
      format = getFormatFromColumn clm ∧ levelColors = getLevelColorsFromColumn clm := by
    by_cases hexists : ∃ clm ∈ sortColumns s.columns, clm.name = "severity"
    · obtain ⟨clm, hclm, hname⟩ := hexists
      refine ⟨getFormatFromColumn clm, getLevelColorsFromColumn clm, fun clm' hclm' hname' => ?_⟩
      rw [List.inj_on_of_nodup_map hsorted hclm' hclm (hname'.trans hname.symm)]
      exact ⟨rfl, rfl⟩
    · exact ⟨.dot, [], fun clm hclm hname => absurd ⟨clm, hclm, hname⟩ hexists⟩
  have hwrite : logConfigUIToServer ⟨(sortColumns s.columns).map columnServerToUI, ofSeverity getFormatFromColumn (sortColumns s.columns),
      ofSeverity getLevelColorsFromColumn (sortColumns s.columns)⟩ = some ⟨written ((sortColumns s.columns).map columnServerToUI) format levelColors⟩ := by
    refine logConfigUIToServer_eq_some fun c hc hname => ?_
    obtain ⟨clm, hclm, rfl⟩ := List.mem_map.mp hc
    rw [columnServerToUI_eq] at hname
    obtain ⟨rfl, rfl⟩ := hsevere clm hclm hname
    exact ⟨ofSeverity_eq hsorted hclm hname, ofSeverity_eq hsorted hclm hname⟩
  have hviews : LogViewerConfig.views ⟨written ((sortColumns s.columns).map columnServerToUI) format levelColors⟩ =
      (sortColumns s.columns).map fun clm => viewOf (columnServerToUI clm) format levelColors := by
    have hzip : ((sortColumns s.columns).map columnServerToUI).zipIdx.map Prod.fst = (sortColumns s.columns).map columnServerToUI :=
      List.zipIdx_map_fst 0 _
    have hcolumns : (written ((sortColumns s.columns).map columnServerToUI) format levelColors).map LogViewerColumn.view =
        ((sortColumns s.columns).map columnServerToUI).map fun c => viewOf c format levelColors := by
      nth_rewrite 2 [← hzip]
      rw [written, List.map_map, List.map_map]
      exact List.map_congr_left fun e _ => view_written rfl rfl
    rw [LogViewerConfig.views, sortColumns_written, hcolumns, List.map_map]
    rfl
  have hsame : (LogViewerConfig.views ⟨written ((sortColumns s.columns).map columnServerToUI) format levelColors⟩ = s.views) ↔
      ∀ clm ∈ s.columns, Keeps clm := by
    rw [hviews, LogViewerConfig.views, List.map_inj_left]
    refine (forall₂_congr fun clm hclm => viewOf_eq_view_iff ?_ (hsevere clm hclm)).trans ⟨fun h clm hclm => h clm (hperm.mem_iff.mpr hclm),
      fun h clm hclm => h clm (hperm.mem_iff.mp hclm)⟩
    exact fun e he => (hknown clm (hperm.mem_iff.mp hclm) e he).2
  rw [← hsame]
  constructor
  · rintro ⟨ui, hui', back, hback, hkept⟩
    obtain rfl := Option.some_inj.mp (hui.symm.trans hui')
    obtain rfl := Option.some_inj.mp (hwrite.symm.trans hback)
    exact hkept
  · exact fun hkept => ⟨_, hui, _, hwrite, hkept⟩

/-- The configuration that the server makes for an organization is accepted, and says the same after the log viewer read it and wrote it. -/
theorem preserved_newOrganizationConfig (orgID : String) :
    validLogViewerConfig (Bolt.OrganizationConfigStore.newOrganizationConfig orgID).logViewer = .ok () ∧
      Preserved (Bolt.OrganizationConfigStore.newOrganizationConfig orgID).logViewer := by
  have hvalid : validLogViewerConfig (Bolt.OrganizationConfigStore.newOrganizationConfig "").logViewer = .ok () := by decide +kernel
  have hknown : KnownOptions (Bolt.OrganizationConfigStore.newOrganizationConfig "").logViewer := by decide +kernel
  have hkeeps : ∀ clm ∈ (Bolt.OrganizationConfigStore.newOrganizationConfig "").logViewer.columns, Keeps clm := by decide +kernel
  exact ⟨hvalid, (preserved_iff hvalid hknown).mpr hkeeps⟩

/-- When configurations come back, from either side. -/
theorem config_iff (c : LogConfig) (s : LogViewerConfig) (hc : Severe c) (hvalid : validLogViewerConfig s = .ok ()) (hknown : KnownOptions s) :
    (RoundTrip c ↔ ∀ column ∈ c.tableColumns, column.internalName = "severity" →
        ∀ format, c.severityFormat = some format → column.displayName ∉ labels format) ∧
      (Preserved s ↔ ∀ clm ∈ s.columns, Keeps clm) :=
  ⟨roundTrip_iff hc, preserved_iff hvalid hknown⟩

def iconConfig : LogConfig := ⟨[⟨"severity", "Severity", true⟩, ⟨"message", "", false⟩], some .dot, some [⟨some .emerg, some .ruby⟩]⟩

def iconColumns : LogViewerConfig :=
  ⟨[⟨"message", 1, [⟨"visibility", "hidden", ""⟩]⟩,
    ⟨"severity", 0, [⟨"visibility", "visible", ""⟩, ⟨"label", "icon", ""⟩, ⟨"color", "ruby", "emerg"⟩]⟩]⟩

theorem config_iff_icon : (RoundTrip iconConfig ↔ ∀ column ∈ iconConfig.tableColumns, column.internalName = "severity" →
      ∀ format, iconConfig.severityFormat = some format → column.displayName ∉ labels format) ∧
    (Preserved iconColumns ↔ ∀ clm ∈ iconColumns.columns, Keeps clm) := by
  refine config_iff iconConfig iconColumns ⟨by decide, by decide, rfl, [⟨some .emerg, some .ruby⟩], rfl, ?_⟩ (by decide) ?_
  · exact List.forall_mem_singleton.mpr ⟨rfl, rfl⟩
  · simp only [KnownOptions, iconColumns, List.forall_mem_cons]
    simp [KnownLabel, KnownColor]
    decide

/-- A severity named `text` and shown as text is written with two of the encodings that the server counts. -/
theorem named_text_rejected : Severe ⟨[⟨"severity", "text", true⟩], some .text, some []⟩ ∧
    ¬RoundTrip ⟨[⟨"severity", "text", true⟩], some .text, some []⟩ := by
  refine ⟨⟨by decide, by decide, rfl, [], rfl, fun _ h => absurd h List.not_mem_nil⟩, ?_⟩
  rintro ⟨s, hs, -, haccepted⟩
  obtain rfl := Option.some_inj.mp hs
  exact absurd haccepted (by decide)

end LogViewer
end Chronograf
