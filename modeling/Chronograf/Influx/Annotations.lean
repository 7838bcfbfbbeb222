/-
# The annotation store

`influx/annotations.go`. An annotation is kept as a point of one measurement:
a point has a tag set, a time and fields, and a point written with the tag set
and the time of another overwrites it. The tag set of a point is its tag `id`
and the tags of the annotation, which the handlers have checked
(`AnnotationTags.Valid`). The client leaves out a tag whose value is empty and
the time 0, for which the database takes its own (`influx/lineprotocol.go`);
otherwise points arrive as they are. The database is a parameter: which points
a command selects. Times are whole nanoseconds, without the bounds of `int64`.

Key definitions: `Annotation`, `Point`, `Database`, `Annotations.get`,
`Annotations.all`, `Annotations.step`.
-/
import Chronograf.Lib.Events
import Chronograf.Lib.Marshal
import Mathlib.Data.Int.Order.Basic
import Mathlib.Data.List.Sort

namespace Chronograf

def annotationTagsBlacklist : List String :=
  ["deleted", "start_time", "startTime", "end_time", "endTime", "modified_time_ns", "text", "type", "id"]

/-- `ValidateAnnotationTagKey`; the database itself refuses a tag called `time`. -/
def validateAnnotationTagKey (tagKey : String) : Bool := tagKey ∉ annotationTagsBlacklist ∧ tagKey ≠ "time"

/-- Tags that are valid. -/
structure AnnotationTags where
  members : Members String
  valid : ∀ m ∈ members.toList, validateAnnotationTagKey m.1
  deriving DecidableEq

/-- An annotation; no tags and `nil` are the same. -/
structure Annotation where
  id : String
  startTime : ℤ
  endTime : ℤ
  text : String
  tags : AnnotationTags
  deriving DecidableEq

/-- A point of the measurement `annotations`. -/
structure Point where
  id : String
  tags : AnnotationTags
  time : ℤ
  deleted : Bool
  startTime : ℤ
  modifiedTimeNs : ℤ
  text : String
  deriving DecidableEq

/-- What tells the points of a measurement apart: tag set and time. -/
def Point.key (p : Point) : String × AnnotationTags × ℤ := (p.id, p.tags, p.time)

/-- A tag of a comparison, `Key Comparator Value`. -/
structure AnnotationTagFilter where
  key : String
  value : String
  comparator : String

def AnnotationTagFilter.string (f : AnnotationTagFilter) : String := f.key ++ " " ++ f.comparator ++ " " ++ f.value

namespace Annotations

inductive Error
  | errAnnotationNotFound
  | query
  deriving DecidableEq

/-! ### The database and its client -/

/-- A database that runs commands: the points a command selects, or an error. -/
structure Database where
  select : String → Option (Point → Bool)

/-- The tags without those that have no value. -/
def nonEmpty (tags : AnnotationTags) : AnnotationTags where
  members := tags.members.filter (· ≠ "")
  valid m hm := tags.valid m (List.mem_filter.mp hm).1

/-- What arrives of a point, at a server whose time is `clock`. -/
def sent (clock : ℤ) (p : Point) : Point :=
  { p with tags := nonEmpty p.tags, time := if p.time = 0 then clock else p.time }

/-- The points after a write: a point with the same key is overwritten. -/
def write (ps : List Point) (clock : ℤ) (p : Point) : List Point :=
  ps.filter (fun q => q.key ≠ (sent clock p).key) ++ [sent clock p]

/-! ### Points and annotations -/

def toPoint (anno : Annotation) (now : ℤ) : Point where
  id := anno.id
  tags := anno.tags
  time := anno.endTime
  deleted := false
  startTime := anno.startTime
  modifiedTimeNs := now
  text := anno.text

def toDeletedPoint (anno : Annotation) (now : ℤ) : Point where
  id := anno.id
  tags := anno.tags
  time := anno.endTime
  deleted := true
  startTime := 0
  modifiedTimeNs := now
  text := ""

/-- The annotation of a row. -/
def ofPoint (p : Point) : Annotation := ⟨p.id, p.startTime, p.time, p.text, p.tags⟩

/-- A row taken into the annotations so far, each with its modification time: of
two with one ID the one modified later. -/
def latest (annos : List ( Annotation × ℤ)) (row : Point) : List ( Annotation × ℤ) :=
  match annos.find? fun a => a.1.id = row.id with
  | none => annos ++ [(ofPoint row, row.modifiedTimeNs)]
  | some prev =>
    if row.modifiedTimeNs > prev.2 then
      annos.map fun a => if a.1.id = row.id then (ofPoint row, row.modifiedTimeNs) else a
    else annos

/-- `influxResults.Annotations`; the order of the result is not that of the source. -/
def ofRows (rows : List Point) : List Annotation := (rows.foldl latest []).map Prod.fst

/-! ### The store -/

/-- `AllAnnotations`. -/
def allAnnotations (start stop : ℤ) (expr : String) : String :=
  "SELECT * FROM \"annotations\" WHERE \"deleted\"=false AND time >= " ++ start.repr ++
    "ns and \"start_time\" <= " ++ stop.repr ++ " " ++ expr ++ " ORDER BY time DESC"

/-- `GetAnnotationID`. -/
def getAnnotationID (id : String) : String :=
  "SELECT * FROM \"annotations\" WHERE \"id\"='" ++ id ++ "' AND \"deleted\"=false ORDER BY time DESC"

variable (db : Database)

/-- The rows a command selects, the latest first, as annotations. -/
def queryAnnotations (ps : List Point) (query : String) : Except Error (List Annotation) :=
  match db.select query with
  | none => .error .query
  | some p => .ok (ofRows ((ps.filter p).insertionSort fun a b => b.time ≤ a.time))

def all (ps : List Point) (start stop : ℤ) (filters : List AnnotationTagFilter) : Except Error (List Annotation) :=
  let exprs := filters.map AnnotationTagFilter.string
  let expr := if exprs.length > 0 then " AND " ++ " AND ".intercalate exprs else ""
  queryAnnotations db ps (allAnnotations start stop expr)

def get (ps : List Point) (id : String) : Except Error Annotation := do
  let annos ← queryAnnotations db ps (getAnnotationID id)
  match annos with
  | [] => .error .errAnnotationNotFound
  | anno :: _ => .ok anno

/-- The time of the caller and that of the server when a point is written. -/
structure Times where
  now : ℤ
  clock : ℤ

/-- The annotation gets the ID that is generated. -/
def add (ps : List Point) (id : String) (anno : Annotation) (t : Times) : List Point :=
  write ps t.clock (toPoint { anno with id := id } t.now)

def delete (ps : List Point) (id : String) (t : Times) : Except Error (List Point) := do
  let cur ← get db ps id
  return write ps t.clock (toDeletedPoint cur t.now)

def update (ps : List Point) (anno : Annotation) (t t' : Times) : Except Error (List Point) := do
  let cur ← get db ps anno.id
  let ps := write ps t.clock (toPoint anno t.now)
  -- the previous annotation is deleted only if the time is another
  if cur.endTime ≠ anno.endTime then return write ps t'.clock (toDeletedPoint cur t'.now)
  else return ps

/-- The calls that change the store, with the ID that is generated and the times of the writes. -/
inductive Call
  | add (id : String) (anno : Annotation) (t : Times)
  | update (anno : Annotation) (t t' : Times)
  | delete (id : String) (t : Times)

/-- The points after a call that succeeds. -/
def step (ps : List Point) : Call → Option (List Point)
  | .add id anno t => some (add ps id anno t)
  | .update anno t t' => (update db ps anno t t').toOption
  | .delete id t => (delete db ps id t).toOption

end Annotations
end Chronograf
