/-
# Cells of the second version of the API

The records of `v2/cell.go` and their JSON. An upper and a lower bound of an
older form (`legacyBounds`) and the shifts of a query have no name in JSON
and are lost; a visualization that is not given, or not of a type known here,
comes back as the empty one.

Key definitions: `Cell`, `Visualization`, `CellUpdate`, `Cell.Kept`.
Key theorem: `Cell.stored_eq_iff`.
-/
import Chronograf.Lib.Marshal

namespace Chronograf
namespace Platform

open Marshal

/-! ### Queries -/

structure TimeShift where
  label : String := ""
  unit : String := ""
  quantity : String := ""
  deriving DecidableEq

structure Range where
  upper : Int64 := 0
  lower : Int64 := 0
  deriving DecidableEq

structure DurationRange where
  upper : String := ""
  lower : String := ""
  deriving DecidableEq

structure GroupBy where
  time : String := ""
  tags : Slice String := ⟨none⟩
  deriving DecidableEq

/-- A field; its value may be of any kind. -/
structure Field where
  value : Json := .null
  type : String := ""
  aliasName : String := ""
  args : Option (List Field) := none

instance : Marshal TimeShift where
  zero := {}
  marshal t := .obj [("label", marshal t.label), ("unit", marshal t.unit), ("quantity", marshal t.quantity)]
  unmarshal := record {} fun t k j => match k with
    | "label" => (unmarshal j).map fun v => { t with label := v }
    | "unit" => (unmarshal j).map fun v => { t with unit := v }
    | "quantity" => (unmarshal j).map fun v => { t with quantity := v }
    | _ => some t
  stored := id
  unmarshal_marshal t := by simp

instance : Lossless TimeShift := ⟨fun _ => rfl⟩

/-- Without arguments the name is left out. -/
def Field.marshalArgs (args : List Json) : List (String × Json) := omitEmpty "args" args.isEmpty (.arr args)

mutual

def Field.marshalJSON : Field → Json
  | ⟨value, type, aliasName, args⟩ =>
    .obj ([("value", value), ("type", .str type), ("alias", .str aliasName)] ++ Field.marshalArgs (Field.marshalOption args))

def Field.marshalOption : Option (List Field) → List Json
  | none => []
  | some fs => Field.marshalList fs

def Field.marshalList : List Field → List Json
  | [] => []
  | f :: fs => f.marshalJSON :: Field.marshalList fs

end

mutual

def Field.unmarshalJSON : Json → Option Field
  | .null => some {}
  | .obj ms => Field.unmarshalMembers {} ms
  | _ => none

def Field.unmarshalMembers (f : Field) : List (String × Json) → Option Field
  | [] => some f
  | ("value", j) :: ms => Field.unmarshalMembers { f with value := j } ms
  | ("type", j) :: ms => (unmarshal j).bind fun v => Field.unmarshalMembers { f with type := v } ms
  | ("alias", j) :: ms => (unmarshal j).bind fun v => Field.unmarshalMembers { f with aliasName := v } ms
  | ("args", .null) :: ms => Field.unmarshalMembers { f with args := none } ms
  | ("args", .arr js) :: ms => (Field.unmarshalList js).bind fun v => Field.unmarshalMembers { f with args := some v } ms
  | ("args", _) :: _ => none
  | _ :: ms => Field.unmarshalMembers f ms

def Field.unmarshalList : List Json → Option (List Field)
  | [] => some []
  | j :: js => (Field.unmarshalJSON j).bind fun f => (Field.unmarshalList js).map fun fs => f :: fs

end

/-! What is read back: without arguments and with none, the arguments are `nil`. -/

mutual

def Field.stored : Field → Field
  | ⟨value, type, aliasName, args⟩ => ⟨value, type, aliasName, Field.storedOption args⟩

def Field.storedOption : Option (List Field) → Option (List Field)
  | none => none
  | some fs => Field.storedArgs fs

def Field.storedArgs : List Field → Option (List Field)
  | [] => none
  | f :: fs => some (f.stored :: Field.storedList fs)

def Field.storedList : List Field → List Field
  | [] => []
  | f :: fs => f.stored :: Field.storedList fs

end

/-! No list of arguments in the field is empty. -/

mutual

def Field.Kept : Field → Prop
  | ⟨_, _, _, args⟩ => Field.KeptOption args

def Field.KeptOption : Option (List Field) → Prop
  | none => True
  | some fs => Field.KeptArgs fs

def Field.KeptArgs : List Field → Prop
  | [] => False
  | f :: fs => f.Kept ∧ Field.KeptList fs

def Field.KeptList : List Field → Prop
  | [] => True
  | f :: fs => f.Kept ∧ Field.KeptList fs

end

mutual

theorem Field.unmarshal_marshalJSON : ∀ f : Field, Field.unmarshalJSON f.marshalJSON = some f.stored
  | ⟨value, type, aliasName, none⟩ => rfl
  | ⟨value, type, aliasName, some []⟩ => rfl
  | ⟨value, type, aliasName, some (f :: fs)⟩ => by
    have hargs := Field.unmarshal_marshalList (f :: fs)
    show (Field.unmarshalList (Field.marshalList (f :: fs))).bind _ = _
    rw [hargs]
    rfl

theorem Field.unmarshal_marshalList : ∀ fs : List Field,
    Field.unmarshalList (Field.marshalList fs) = some (Field.storedList fs)
  | [] => rfl
  | f :: fs => by
    rw [Field.marshalList, Field.unmarshalList, Field.unmarshal_marshalJSON f, Field.unmarshal_marshalList fs]
    rfl

end

mutual

theorem Field.stored_eq_iff : ∀ f : Field, f.stored = f ↔ f.Kept
  | ⟨value, type, aliasName, none⟩ => iff_of_true rfl trivial
  | ⟨value, type, aliasName, some []⟩ => iff_of_false (fun h => nomatch (Field.mk.inj h).2.2.2) id
  | ⟨value, type, aliasName, some (f :: fs)⟩ => by
    have hlist := Field.storedList_eq_iff (f :: fs)
    show (⟨value, type, aliasName, some (Field.storedList (f :: fs))⟩ : Field) = _ ↔ Field.KeptList (f :: fs)
    rw [← hlist, Field.mk.injEq, Option.some.injEq]
    simp

theorem Field.storedList_eq_iff : ∀ fs : List Field, Field.storedList fs = fs ↔ Field.KeptList fs
  | [] => iff_of_true rfl trivial
  | f :: fs => by
    rw [Field.storedList, List.cons.injEq, Field.stored_eq_iff f, Field.storedList_eq_iff fs]
    rfl

end

instance : Marshal Field where
  zero := {}
  marshal := Field.marshalJSON
  unmarshal := Field.unmarshalJSON
  stored := Field.stored
  unmarshal_marshal := Field.unmarshal_marshalJSON

instance : Marshal Range where
  zero := {}
  marshal r := .obj [("upper", marshal r.upper), ("lower", marshal r.lower)]
  unmarshal := record {} fun r k j => match k with
    | "upper" => (unmarshal j).map fun v => { r with upper := v }
    | "lower" => (unmarshal j).map fun v => { r with lower := v }
    | _ => some r
  stored := id
  unmarshal_marshal r := by simp

instance : Lossless Range := ⟨fun _ => rfl⟩
instance : NotNull Range := ⟨fun _ => Json.noConfusion⟩

instance : Marshal DurationRange where
  zero := {}
  marshal r := .obj [("upper", marshal r.upper), ("lower", marshal r.lower)]
  unmarshal := record {} fun r k j => match k with
    | "upper" => (unmarshal j).map fun v => { r with upper := v }
    | "lower" => (unmarshal j).map fun v => { r with lower := v }
    | _ => some r
  stored := id
  unmarshal_marshal r := by simp

instance : Lossless DurationRange := ⟨fun _ => rfl⟩
instance : NotNull DurationRange := ⟨fun _ => Json.noConfusion⟩

instance : Marshal GroupBy where
  zero := {}
  marshal g := .obj [("time", marshal g.time), ("tags", marshal g.tags)]
  unmarshal := record {} fun g k j => match k with
    | "time" => (unmarshal j).map fun v => { g with time := v }
    | "tags" => (unmarshal j).map fun v => { g with tags := v }
    | _ => some g
  stored := id
  unmarshal_marshal g := by simp

instance : Lossless GroupBy := ⟨fun _ => rfl⟩

structure QueryConfig where
  id : String := ""
  database : String := ""
  measurement : String := ""
  retentionPolicy : String := ""
  fields : Slice Field := ⟨none⟩
  tags : Option (Members (Slice String)) := none
  groupBy : GroupBy := {}
  areTagsAccepted : Bool := false
  fill : String := ""
  rawText : Option String := none
  range : Option DurationRange := none
  shifts : Slice TimeShift := ⟨none⟩

def QueryConfig.set (q : QueryConfig) (k : String) (j : Json) : Option QueryConfig := match k with
  | "id" => (unmarshal j).map fun v => { q with id := v }
  | "database" => (unmarshal j).map fun v => { q with database := v }
  | "measurement" => (unmarshal j).map fun v => { q with measurement := v }
  | "retentionPolicy" => (unmarshal j).map fun v => { q with retentionPolicy := v }
  | "fields" => (unmarshal j).map fun v => { q with fields := v }
  | "tags" => (unmarshal j).map fun v => { q with tags := v }
  | "groupBy" => (unmarshal j).map fun v => { q with groupBy := v }
  | "areTagsAccepted" => (unmarshal j).map fun v => { q with areTagsAccepted := v }
  | "fill" => (unmarshal j).map fun v => { q with fill := v }
  | "rawText" => (unmarshal j).map fun v => { q with rawText := v }
  | "range" => (unmarshal j).map fun v => { q with range := v }
  | "shifts" => (unmarshal j).map fun v => { q with shifts := v }
  | _ => some q

instance : Marshal QueryConfig where
  zero := {}
  marshal q := .obj (omitEmpty "id" (q.id = "") (marshal q.id) ++
    [("database", marshal q.database), ("measurement", marshal q.measurement),
      ("retentionPolicy", marshal q.retentionPolicy), ("fields", marshal q.fields), ("tags", marshal q.tags),
      ("groupBy", marshal q.groupBy), ("areTagsAccepted", marshal q.areTagsAccepted)] ++
    omitEmpty "fill" (q.fill = "") (marshal q.fill) ++
    [("rawText", marshal q.rawText), ("range", marshal q.range), ("shifts", marshal q.shifts)])
  unmarshal := record {} QueryConfig.set
  stored q := { q with fields := stored q.fields }
  unmarshal_marshal q := by
    by_cases hid : q.id = "" <;> by_cases hfill : q.fill = "" <;> simp [omitEmpty, QueryConfig.set, hid, hfill]

/-- A query; its shifts have no name in JSON. -/
structure DashboardQuery where
  command : String := ""
  label : String := ""
  range : Option Range := none
  queryConfig : QueryConfig := {}
  source : String := ""
  shifts : Slice TimeShift := ⟨none⟩

def DashboardQuery.set (q : DashboardQuery) (k : String) (j : Json) : Option DashboardQuery := match k with
  | "query" => (unmarshal j).map fun v => { q with command := v }
  | "label" => (unmarshal j).map fun v => { q with label := v }
  | "range" => (unmarshal j).map fun v => { q with range := v }
  | "queryConfig" => (unmarshal j).map fun v => { q with queryConfig := v }
  | "source" => (unmarshal j).map fun v => { q with source := v }
  | _ => some q

instance : Marshal DashboardQuery where
  zero := {}
  marshal q := .obj ([("query", marshal q.command)] ++ omitEmpty "label" (q.label = "") (marshal q.label) ++
    omitEmpty "range" q.range.isNone (marshal q.range) ++
    [("queryConfig", marshal q.queryConfig), ("source", marshal q.source)])
  unmarshal := record {} DashboardQuery.set
  stored q := { q with queryConfig := stored q.queryConfig, shifts := ⟨none⟩ }
  unmarshal_marshal q := by
    by_cases hlabel : q.label = "" <;> cases hrange : q.range <;>
      simp [omitEmpty, DashboardQuery.set, hlabel]

/-! ### Visualizations -/

/-- An axis; its bounds of the older form have no name in JSON. -/
structure Axis where
  bounds : Slice String := ⟨none⟩
  legacyBounds : Int64 × Int64 := (0, 0)
  label : String := ""
  pre : String := ""
  suffix : String := ""
  base : String := ""
  scale : String := ""
  deriving DecidableEq

instance : Marshal Axis where
  zero := {}
  marshal a := .obj [("bounds", marshal a.bounds), ("label", marshal a.label), ("prefix", marshal a.pre),
    ("suffix", marshal a.suffix), ("base", marshal a.base), ("scale", marshal a.scale)]
  unmarshal := record {} fun a k j => match k with
    | "bounds" => (unmarshal j).map fun v => { a with bounds := v }
    | "label" => (unmarshal j).map fun v => { a with label := v }
    | "prefix" => (unmarshal j).map fun v => { a with pre := v }
    | "suffix" => (unmarshal j).map fun v => { a with suffix := v }
    | "base" => (unmarshal j).map fun v => { a with base := v }
    | "scale" => (unmarshal j).map fun v => { a with scale := v }
    | _ => some a
  stored a := { a with legacyBounds := (0, 0) }
  unmarshal_marshal a := by simp

structure CellColor where
  id : String := ""
  type : String := ""
  hex : String := ""
  name : String := ""
  value : String := ""
  deriving DecidableEq

instance : Marshal CellColor where
  zero := {}
  marshal c := .obj [("id", marshal c.id), ("type", marshal c.type), ("hex", marshal c.hex), ("name", marshal c.name),
    ("value", marshal c.value)]
  unmarshal := record {} fun c k j => match k with
    | "id" => (unmarshal j).map fun v => { c with id := v }
    | "type" => (unmarshal j).map fun v => { c with type := v }
    | "hex" => (unmarshal j).map fun v => { c with hex := v }
    | "name" => (unmarshal j).map fun v => { c with name := v }
    | "value" => (unmarshal j).map fun v => { c with value := v }
    | _ => some c
  stored := id
  unmarshal_marshal c := by simp

instance : Lossless CellColor := ⟨fun _ => rfl⟩

structure Legend where
  type : String := ""
  orientation : String := ""
  deriving DecidableEq

instance : Marshal Legend where
  zero := {}
  marshal l := .obj (omitEmpty "type" (l.type = "") (marshal l.type) ++
    omitEmpty "orientation" (l.orientation = "") (marshal l.orientation))
  unmarshal := record {} fun l k j => match k with
    | "type" => (unmarshal j).map fun v => { l with type := v }
    | "orientation" => (unmarshal j).map fun v => { l with orientation := v }
    | _ => some l
  stored := id
  unmarshal_marshal l := by
    obtain ⟨type, orientation⟩ := l
    by_cases htype : type = "" <;> by_cases horientation : orientation = "" <;> simp [omitEmpty, htype, horientation]

instance : Lossless Legend := ⟨fun _ => rfl⟩

structure RenamableField where
  internalName : String := ""
  displayName : String := ""
  visible : Bool := false
  deriving DecidableEq

instance : Marshal RenamableField where
  zero := {}
  marshal f := .obj [("internalName", marshal f.internalName), ("displayName", marshal f.displayName),
    ("visible", marshal f.visible)]
  unmarshal := record {} fun f k j => match k with
    | "internalName" => (unmarshal j).map fun v => { f with internalName := v }
    | "displayName" => (unmarshal j).map fun v => { f with displayName := v }
    | "visible" => (unmarshal j).map fun v => { f with visible := v }
    | _ => some f
  stored := id
  unmarshal_marshal f := by simp

instance : Lossless RenamableField := ⟨fun _ => rfl⟩

structure TableOptions where
  verticalTimeAxis : Bool := false
  sortBy : RenamableField := {}
  wrapping : String := ""
  fixFirstColumn : Bool := false
  deriving DecidableEq

instance : Marshal TableOptions where
  zero := {}
  marshal t := .obj [("verticalTimeAxis", marshal t.verticalTimeAxis), ("sortBy", marshal t.sortBy),
    ("wrapping", marshal t.wrapping), ("fixFirstColumn", marshal t.fixFirstColumn)]
  unmarshal := record {} fun t k j => match k with
    | "verticalTimeAxis" => (unmarshal j).map fun v => { t with verticalTimeAxis := v }
    | "sortBy" => (unmarshal j).map fun v => { t with sortBy := v }
    | "wrapping" => (unmarshal j).map fun v => { t with wrapping := v }
    | "fixFirstColumn" => (unmarshal j).map fun v => { t with fixFirstColumn := v }
    | _ => some t
  stored := id
  unmarshal_marshal t := by simp

instance : Lossless TableOptions := ⟨fun _ => rfl⟩

structure DecimalPlaces where
  isEnforced : Bool := false
  digits : Int32 := 0
  deriving DecidableEq

instance : Marshal DecimalPlaces where
  zero := {}
  marshal d := .obj [("isEnforced", marshal d.isEnforced), ("digits", marshal d.digits)]
  unmarshal := record {} fun d k j => match k with
    | "isEnforced" => (unmarshal j).map fun v => { d with isEnforced := v }
    | "digits" => (unmarshal j).map fun v => { d with digits := v }
    | _ => some d
  stored := id
  unmarshal_marshal d := by simp

instance : Lossless DecimalPlaces := ⟨fun _ => rfl⟩

structure V1Visualization where
  queries : Slice DashboardQuery := ⟨none⟩
  axes : Option (Members Axis) := none
  type : String := ""
  cellColors : Slice CellColor := ⟨none⟩
  legend : Legend := {}
  tableOptions : TableOptions := {}
  fieldOptions : Slice RenamableField := ⟨none⟩
  timeFormat : String := ""
  decimalPlaces : DecimalPlaces := {}

def V1Visualization.set (v : V1Visualization) (k : String) (j : Json) : Option V1Visualization := match k with
  | "queries" => (unmarshal j).map fun x => { v with queries := x }
  | "axes" => (unmarshal j).map fun x => { v with axes := x }
  | "visualizationType" => (unmarshal j).map fun x => { v with type := x }
  | "colors" => (unmarshal j).map fun x => { v with cellColors := x }
  | "legend" => (unmarshal j).map fun x => { v with legend := x }
  | "tableOptions" => (unmarshal j).map fun x => { v with tableOptions := x }
  | "fieldOptions" => (unmarshal j).map fun x => { v with fieldOptions := x }
  | "timeFormat" => (unmarshal j).map fun x => { v with timeFormat := x }
  | "decimalPlaces" => (unmarshal j).map fun x => { v with decimalPlaces := x }
  | _ => some v

/-- The members of a visualization, which are written behind its type. -/
def V1Visualization.members (v : V1Visualization) : List (String × Json) :=
  [("queries", marshal v.queries), ("axes", marshal v.axes), ("visualizationType", marshal v.type),
    ("colors", marshal v.cellColors), ("legend", marshal v.legend), ("tableOptions", marshal v.tableOptions),
    ("fieldOptions", marshal v.fieldOptions), ("timeFormat", marshal v.timeFormat),
    ("decimalPlaces", marshal v.decimalPlaces)]

/-- What a cell shows. Values of any other type, such as a pointer to one of
these, are written as the empty one. -/
inductive Visualization
  | emptyVisualization
  | v1Visualization (v : V1Visualization)
  | other

def marshalVisualizationJSON : Option Visualization → Json
  | some (.v1Visualization v) => .obj (("type", .str "chronograf-v1") :: v.members)
  | _ => .obj [("type", .str "empty")]

/-- The last member called `name`. -/
def lastMember (name : String) (ms : List (String × Json)) : Option Json :=
  (ms.reverse.find? fun m => m.1 = name).map Prod.snd

/-- The type of a visualization, the empty text without one. -/
def visualizationType : Json → Option String := record "" fun t k j => match k with
  | "type" => unmarshal j
  | _ => some t

/-- `UnmarshalVisualizationJSON`, of the members of a record. -/
def unmarshalVisualizationJSON (ms : List (String × Json)) : Option Visualization :=
  match lastMember "visualization" ms with
  | none => some .emptyVisualization
  | some j => (visualizationType j).bind fun
    | "chronograf-v1" => (record {} V1Visualization.set j).map .v1Visualization
    | "empty" => some .emptyVisualization
    | _ => none

/-! ### Cells -/

structure CellContents where
  id : String := ""
  name : String := ""
  deriving DecidableEq

structure Cell extends CellContents where
  visualization : Option Visualization := none

/-- What is given of a cell to change it. -/
structure CellUpdate where
  name : Option String := none
  visualization : Option Visualization := none

/-- `CellUpdate.Valid`: a visualization that is empty is none. -/
def CellUpdate.valid (u : CellUpdate) : Bool :=
  match u.name, u.visualization with
  | none, some .emptyVisualization => false
  | _, _ => true

def Cell.marshalJSON (c : Cell) : Json :=
  .obj [("id", marshal c.id), ("name", marshal c.name), ("visualization", marshalVisualizationJSON c.visualization)]

def CellContents.set (c : CellContents) (k : String) (j : Json) : Option CellContents := match k with
  | "id" => (unmarshal j).map fun v => { c with id := v }
  | "name" => (unmarshal j).map fun v => { c with name := v }
  | _ => some c

def Cell.unmarshalJSON : Json → Option Cell
  | .null => some { visualization := some .emptyVisualization }
  | .obj ms =>
    (record {} CellContents.set (.obj ms)).bind fun c =>
      (unmarshalVisualizationJSON ms).map fun v => { c with visualization := some v }
  | _ => none

/-- The update in the body of a request. -/
def CellUpdate.unmarshalJSON : Json → Option CellUpdate
  | .null => some { visualization := some .emptyVisualization }
  | .obj ms =>
    (record none (fun n k j => match k with
      | "name" => (unmarshal j).map fun v : Option String => v
      | _ => some n) (.obj ms)).bind fun n =>
        (unmarshalVisualizationJSON ms).map fun v => { name := n, visualization := some v }
  | _ => none

def V1Visualization.stored (v : V1Visualization) : V1Visualization :=
  { v with queries := Marshal.stored v.queries, axes := Marshal.stored v.axes }

/-- The visualization that is read back. -/
def Visualization.stored : Option Visualization → Visualization
  | some (.v1Visualization v) => .v1Visualization v.stored
  | _ => .emptyVisualization

theorem V1Visualization.record_members (v : V1Visualization) :
    record {} V1Visualization.set (.obj (("type", .str "chronograf-v1") :: v.members)) = some v.stored := by
  simp [V1Visualization.members, V1Visualization.set, V1Visualization.stored]

theorem unmarshal_marshalVisualizationJSON (v : Option Visualization) (ms : List (String × Json)) :
    unmarshalVisualizationJSON (ms ++ [("visualization", marshalVisualizationJSON v)]) =
      some (Visualization.stored v) := by
  have hmember : lastMember "visualization" (ms ++ [("visualization", marshalVisualizationJSON v)]) =
      some (marshalVisualizationJSON v) := by
    simp [lastMember]
  rw [unmarshalVisualizationJSON, hmember]
  cases v with
  | none => rfl
  | some v =>
    cases v with
    | emptyVisualization => rfl
    | other => rfl
    | v1Visualization v =>
      have htype : visualizationType (marshalVisualizationJSON (some (.v1Visualization v))) = some "chronograf-v1" := by
        simp [marshalVisualizationJSON, visualizationType, V1Visualization.members]
        rfl
      show (visualizationType _).bind _ = _
      rw [htype]
      show (record {} V1Visualization.set (.obj (("type", .str "chronograf-v1") :: v.members))).map _ = _
      rw [V1Visualization.record_members]
      rfl

instance : Marshal Cell where
  zero := {}
  marshal := Cell.marshalJSON
  unmarshal := Cell.unmarshalJSON
  stored c := { c with visualization := some (Visualization.stored c.visualization) }
  unmarshal_marshal c := by
    have hvis := unmarshal_marshalVisualizationJSON c.visualization [("id", marshal c.id), ("name", marshal c.name)]
    simp only [List.cons_append, List.nil_append] at hvis
    simp [Cell.marshalJSON, Cell.unmarshalJSON, CellContents.set, hvis]

/-! ### What comes back as it was -/

/-- The shifts are not given, and no list of arguments is empty. -/
structure DashboardQuery.Kept (q : DashboardQuery) : Prop where
  shifts : q.shifts = ⟨none⟩
  fields : ∀ f ∈ q.queryConfig.fields, f.Kept

/-- All of the visualization has a name in JSON. -/
structure V1Visualization.Kept (v : V1Visualization) : Prop where
  queries : ∀ q ∈ v.queries, q.Kept
  axes : ∀ l ∈ v.axes, ∀ a ∈ l.toList, a.2.legacyBounds = (0, 0)

/-- The visualization is given and of a known type. -/
def Visualization.Kept : Option Visualization → Prop
  | some .emptyVisualization => True
  | some (.v1Visualization v) => v.Kept
  | _ => False

theorem DashboardQuery.stored_eq_iff {q : DashboardQuery} : Marshal.stored q = q ↔ q.Kept := by
  have hfields : Marshal.stored q.queryConfig.fields = q.queryConfig.fields ↔ ∀ f ∈ q.queryConfig.fields, f.Kept :=
    stored_slice_eq_iff.trans (forall₂_congr fun f _ => f.stored_eq_iff)
  obtain ⟨command, label, range, ⟨id, database, measurement, policy, fields, tags, groupBy, accepted, fill, rawText,
    range', shifts'⟩, source, shifts⟩ := q
  constructor
  · intro h
    obtain ⟨-, -, -, hconfig, -, hshifts⟩ := DashboardQuery.mk.inj h
    exact ⟨hshifts.symm, hfields.mp (congrArg QueryConfig.fields hconfig)⟩
  · rintro ⟨rfl, h⟩
    have hf : Marshal.stored fields = fields := hfields.mpr h
    show (⟨command, label, range, ⟨id, database, measurement, policy, Marshal.stored fields, tags, groupBy, accepted,
      fill, rawText, range', shifts'⟩, source, ⟨none⟩⟩ : DashboardQuery) = _
    rw [hf]

theorem Axis.stored_eq_iff {a : Axis} : Marshal.stored a = a ↔ a.legacyBounds = (0, 0) := by
  constructor
  · exact fun h => (congrArg Axis.legacyBounds h).symm
  · intro h
    obtain ⟨bounds, legacyBounds, label, pre, suffix, base, scale⟩ := a
    obtain rfl : legacyBounds = (0, 0) := h
    rfl

theorem V1Visualization.stored_eq_iff {v : V1Visualization} : v.stored = v ↔ v.Kept := by
  have hqueries : Marshal.stored v.queries = v.queries ↔ ∀ q ∈ v.queries, q.Kept :=
    stored_slice_eq_iff.trans (forall₂_congr fun q _ => DashboardQuery.stored_eq_iff)
  have haxes : Marshal.stored v.axes = v.axes ↔ ∀ l ∈ v.axes, ∀ a ∈ l.toList, a.2.legacyBounds = (0, 0) :=
    stored_members_eq_iff.trans (forall₂_congr fun l _ => forall₂_congr fun a _ => Axis.stored_eq_iff)
  constructor
  · exact fun h => ⟨hqueries.mp (congrArg V1Visualization.queries h), haxes.mp (congrArg V1Visualization.axes h)⟩
  · rintro ⟨hq, ha⟩
    rw [V1Visualization.stored, hqueries.mpr hq, haxes.mpr ha]

theorem Visualization.stored_eq_iff {v : Option Visualization} : some (Visualization.stored v) = v ↔ Visualization.Kept v := by
  cases v with
  | none => exact iff_of_false (fun h => nomatch h) id
  | some v =>
    cases v with
    | emptyVisualization => exact iff_of_true rfl trivial
    | other => exact iff_of_false (fun h => nomatch h) id
    | v1Visualization v =>
      show some (Visualization.v1Visualization v.stored) = some (.v1Visualization v) ↔ v.Kept
      rw [Option.some.injEq, Visualization.v1Visualization.injEq, V1Visualization.stored_eq_iff]

/-- A cell comes back as it was if its visualization does. -/
theorem Cell.stored_eq_iff {c : Cell} : Marshal.stored c = c ↔ Visualization.Kept c.visualization := by
  rw [← Visualization.stored_eq_iff]
  constructor
  · exact fun h => congrArg Cell.visualization h
  · intro h
    show { c with visualization := some (Visualization.stored c.visualization) } = c
    rw [h]

end Platform
end Chronograf
