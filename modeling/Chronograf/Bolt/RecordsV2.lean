/-
# Dashboards and cells of the second version in the database

`bolt/dashboardsv2.go` and `bolt/cell.go`, and what `Client.Open` does for
them (`bolt/client.go`). Both services keep their records as JSON under the
ID; the operations are the same but for the bucket, the error for a missing
record and what an update changes (`Records`). A bucket that is not in the
file is `nil`, and every use of it a panic. The storage does not fail, and no
record is larger than a value may be.

Key definitions: `Records`, `Entry`, `Records.step`, `Client.openFile`.
-/
import Chronograf.Types
import Chronograf.V2.Cells
import Chronograf.V2.Dashboards

namespace Chronograf
namespace Platform

open Marshal

/-- A record in the file: its JSON under its ID. -/
structure Entry where
  id : String
  doc : Json

instance : Keyed Entry String := ⟨Entry.id⟩

@[simp] theorem key_entry (e : Entry) : key e = e.id := rfl

/-- The errors of the services and of a bucket. -/
inductive Error
  | errDashboardNotFound
  | errCellNotFound
  | errKeyRequired
  | errKeyTooLarge
  | unmarshal
  deriving DecidableEq

/-- How a call can end that does not return a value. -/
inductive Failure
  | panic
  | error (e : Error)
  deriving DecidableEq

/-- What is particular to the records `α` of a service and their updates `υ`:
the ID, the error for a missing record and what an update changes. -/
class Records (α : Type) (υ : outParam Type) extends Marshal α where
  id : α → String
  withID : String → α → α
  notFound : Error
  updated : υ → α → α

/-! ### The buckets -/

def maxKeySize : ℕ := 32768

/-- `tx.Bucket(name)`, used. -/
def deref (b : Option (Bucket Entry)) : Except Failure (Bucket Entry) :=
  match b with
  | none => .error .panic
  | some b => .ok b

/-- `Bucket.Put`. -/
def putEntry (b : Bucket Entry) (e : Entry) : Except Failure (Bucket Entry) :=
  if e.id.utf8ByteSize = 0 then .error (.error .errKeyRequired)
  else if maxKeySize < e.id.utf8ByteSize then .error (.error .errKeyTooLarge)
  else .ok (b.put e)

/-- `strconv.Itoa(int(id))` of the next number of the sequence. -/
def itoa (seq : ℕ) : String := (Int64.ofNat seq).toInt.repr

namespace Records

/-- The calls of a service. -/
inductive Call (α υ : Type)
  | create (d : α)
  | put (d : α)
  | update (id : String) (upd : υ)
  | delete (id : String)
  | findByID (id : String)
  | find (filter : Option String)

/-- What a call comes back with; a record that is created has got an ID. -/
inductive Reply (α : Type)
  | failed (e : Failure)
  | done
  | created (id : String)
  | found (d : α)
  | list (ds : List α)

variable {α υ : Type} [Records α υ]

/-! ### Inside a transaction -/

def findByID (b : Bucket Entry) (i : String) : Except Failure α :=
  match b.get i with
  | none => .error (.error (notFound α))
  | some v =>
    match unmarshal v.doc with
    | none => .error (.error .unmarshal)
    | some d => .ok d

/-- Each record in the order of the bucket, up to the first that is none. -/
def forEach (b : Bucket Entry) : Except Failure (List α) :=
  match b.recs.mapM fun v => unmarshal v.doc with
  | none => .error (.error .unmarshal)
  | some ds => .ok ds

def put (b : Bucket Entry) (d : α) : Except Failure (Bucket Entry) := putEntry b ⟨id d, marshal d⟩

def create (b : Bucket Entry) (d : α) : Except Failure (String × Bucket Entry) := do
  let b := b.nextSequence
  let i := itoa b.seq
  return (i, ← put b (withID i d))

def update (b : Bucket Entry) (i : String) (upd : υ) : Except Failure (α × Bucket Entry) := do
  let d ← findByID b i
  let d : α := updated upd d
  return (d, ← put b d)

variable (α) in
def delete (b : Bucket Entry) (i : String) : Except Failure (Bucket Entry) := do
  let _ ← (findByID b i : Except Failure α)
  return b.delete i

/-! ### The calls -/

/-- What a call replies and leaves when the bucket is there. A transaction that
does not end well is rolled back. -/
def act (b : Bucket Entry) : Call α υ → Reply α × Bucket Entry
  | .create d =>
    match create b d with
    | .error e => (.failed e, b)
    | .ok (i, b') => (.created i, b')
  | .put d =>
    match put b d with
    | .error e => (.failed e, b)
    | .ok b' => (.done, b')
  | .update i upd =>
    match update b i upd with
    | .error e => (.failed e, b)
    | .ok (d, b') => (.found d, b')
  | .delete i =>
    match delete α b i with
    | .error e => (.failed e, b)
    | .ok b' => (.done, b')
  | .findByID i =>
    match findByID b i with
    | .error e => (.failed e, b)
    | .ok d => (.found d, b)
  | .find (some i) =>
    match findByID b i with
    | .error e => (.failed e, b)
    | .ok d => (.list [d], b)
  | .find none =>
    match forEach b with
    | .error e => (.failed e, b)
    | .ok ds => (.list ds, b)

/-- A call of a service. Each of them uses its bucket. -/
def step (b : Option (Bucket Entry)) (c : Call α υ) : Reply α × Option (Bucket Entry) :=
  match deref b with
  | .error e => (.failed e, b)
  | .ok b => ((act b c).1, some (act b c).2)

end Records

/-! ### The two services -/

/-- `updateDashboard`. -/
def updateDashboard (upd : DashboardUpdate) (d : Dashboard) : Dashboard :=
  let d := match upd.name with
    | none => d
    | some name => { d with name := name }
  match upd.cells.elems with
  | none => d
  | some _ => { d with cells := upd.cells }

instance : Records Dashboard DashboardUpdate where
  id := Dashboard.id
  withID i d := { d with id := i }
  notFound := .errDashboardNotFound
  updated := updateDashboard

/-- `updateCell`. -/
def updateCell (upd : CellUpdate) (c : Cell) : Cell :=
  let c := match upd.name with
    | none => c
    | some name => { c with name := name }
  match upd.visualization with
  | none => c
  | some v => { c with visualization := some v }

instance : Records Cell CellUpdate where
  id c := c.id
  withID i c := { c with id := i }
  notFound := .errCellNotFound
  updated := updateCell

/-- The buckets of the services in a database file. -/
structure File where
  dashboardsv3 : Option (Bucket Entry) := none
  cellsv2 : Option (Bucket Entry) := none

/-- A call of one of the services. -/
inductive Call
  | dashboard (c : Records.Call Dashboard DashboardUpdate)
  | cell (c : Records.Call Cell CellUpdate)

namespace Client

/-- `tx.CreateBucketIfNotExists`. -/
def createBucketIfNotExists (b : Option (Bucket Entry)) : Option (Bucket Entry) :=
  match b with
  | none => some .empty
  | some b => some b

def initializeCells (f : File) : File := { f with cellsv2 := createBucketIfNotExists f.cellsv2 }

/-- `Client.Open`. Of the buckets of the two services it creates the one of the
cells: `initializeDashboards` is not called. -/
def openFile (f : File) : File := initializeCells f

/-- The file after a call. -/
def step (f : File) : Call → File
  | .dashboard c => { f with dashboardsv3 := (Records.step f.dashboardsv3 c).2 }
  | .cell c => { f with cellsv2 := (Records.step f.cellsv2 c).2 }

end Client
end Platform
end Chronograf
