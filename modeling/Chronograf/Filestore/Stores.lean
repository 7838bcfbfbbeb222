/-
# Stores of files

`filestore/dashboards.go` and `filestore/sources.go`: two stores that differ in
the extension of their files and in the error for a record that is not there
(`Kind`). A record is written to a file named after it, and is looked for by its
ID in the files of the directory, one after the other. A file is a template over
the environment. Each method is given which of its file operations fail.

Key definitions: `Kind`, `Kind.load`, `Kind.create`, `Store.idToFile`, `Store.all`,
`Store.add`, `Store.delete`, `Store.get`, `Store.update`.
-/
import Chronograf.Filestore.Disk
import Chronograf.Dashboard
import Chronograf.Server.Response

namespace Chronograf
namespace Filestore

open Paths

/-- How records are written and read, by packages that are not in the repository:
`execute` is what a template of this name gives with the environment. -/
structure Codec (ρ : Type) where
  marshalIndent : ρ → Except Error (List Byte)
  execute : Text → List Byte → Option (List Byte)
  unmarshal : List Byte → Except Error ρ

/-- What the stores of dashboards and of sources differ in. -/
structure Kind (ρ : Type) where
  codec : Codec ρ
  ext : Text
  notFound : Error
  id : ρ → ℤ
  name : ρ → String
  withID : ℤ → ρ → ρ
  word : Text
  ext_eq : ext = '.' :: word
  word_plain : word ≠ [] ∧ '.' ∉ word ∧ '/' ∉ word
  id_withID : ∀ n x, id (withID n x) = n
  name_withID : ∀ n x, name (withID n x) = name x

/-- `Dashboards`, with `DashExt`. -/
def dashboards (codec : Codec Dashboard) : Kind Dashboard where
  codec := codec
  ext := ".dashboard".toList
  notFound := .errDashboardNotFound
  id := Dashboard.id
  name := Dashboard.name
  withID n dashboard := { dashboard with id := n }
  word := "dashboard".toList
  ext_eq := rfl
  word_plain := by decide
  id_withID _ _ := rfl
  name_withID _ _ := rfl

/-- `Sources`, with `SrcExt`. -/
def sources (codec : Codec Source) : Kind Source where
  codec := codec
  ext := ".src".toList
  notFound := .errSourceNotFound
  id := Source.id
  name := Source.name
  withID n source := { source with id := n }
  word := "src".toList
  ext_eq := rfl
  word_plain := by decide
  id_withID _ _ := rfl
  name_withID _ _ := rfl

/-! ### Files and their records -/

section Files

variable {ρ : Type} (K : Kind ρ)

def unreadable (name : Text) : Error := .errorf ("resource " ++ String.ofList name ++ " not found")

/-- The record that the content of a file stands for. -/
def Kind.parse (name : Text) (content : List Byte) : Except Error ρ :=
  match K.codec.execute name content with
  | none => .error (unreadable name)
  | some octets => K.codec.unmarshal octets

/-- `load(name, resource)`, of a file in the directory. -/
def Kind.load (fails : Option Error) (dir : Path) (name : Text) (s : Disk) : Except Error ρ :=
  match s.readFile fails (dir ++ [name]) with
  | .error _ => .error (unreadable name)
  | .ok content => K.parse name content

/-- `dashboardFile(dir, dashboard)` and `sourceFile(dir, source)` -/
def Kind.file (dir : Path) (x : ρ) : Path := join dir ((K.name x).toList ++ K.ext)

/-- Which operations of `create` fail: the creation, or the writing after so many
bytes. -/
structure CreateFaults where
  create : Option Error := none
  write : Option (ℕ × Error) := none

/-- What `create` answers once the file is there, and what it then holds. -/
def Kind.written (faults : CreateFaults) (x : ρ) : Except Error Unit × List Byte :=
  match K.codec.marshalIndent x, faults.write with
  | .error e, _ => (.error e, [])
  | .ok octets, some (n, e) => (.error e, octets.take n)
  | .ok octets, none => (.ok (), octets)

/-- `create(file, resource)` -/
def Kind.create (faults : CreateFaults) (file : Path) (x : ρ) (s : Disk) : Except Error Unit × Disk :=
  match s.create faults.create file with
  | .error e => (.error e, s)
  | .ok created => ((K.written faults x).1, created.store file (K.written faults x).2)

end Files

/-! ### The methods -/

structure Store (ρ : Type) extends Kind ρ where
  dir : Path

namespace Store

variable {ρ : Type} (d : Store ρ)

/-- Which operations of `idToFile` fail: the reading of the directory, or of the
file that is loaded as the `n`-th. -/
structure LookupFaults where
  readDir : Option Error := none
  load : ℕ → Option Error := fun _ => none

/-- The files one after the other, `n` of them loaded before. -/
def firstWith (faults : LookupFaults) (id : ℤ) (s : Disk) : ℕ → List Text → Except Error (ρ × Path)
  | _, [] => .error d.notFound
  | n, f :: files =>
    if ext f ≠ d.ext then firstWith faults id s n files
    else match d.load (faults.load n) d.dir f s with
      | .error e => .error e
      | .ok x => if d.id x = id then .ok (x, d.dir ++ [f]) else firstWith faults id s (n + 1) files

def idToFile (faults : LookupFaults) (id : ℤ) (s : Disk) : Except Error (ρ × Path) :=
  match s.readDir faults.readDir d.dir with
  | .error e => .error e
  | .ok files => d.firstWith faults id s 0 files

/-- The records of the files that can be loaded. -/
def loadAll (faults : LookupFaults) (s : Disk) : ℕ → List Text → List ρ
  | _, [] => []
  | n, f :: files =>
    if ext f ≠ d.ext then loadAll faults s n files
    else match d.load (faults.load n) d.dir f s with
      | .error _ => loadAll faults s (n + 1) files
      | .ok x => x :: loadAll faults s (n + 1) files

def all (faults : LookupFaults) (s : Disk) : Except Error (List ρ) :=
  match s.readDir faults.readDir d.dir with
  | .error e => .error e
  | .ok files => .ok (d.loadAll faults s 0 files)

/-- `genID` is what `IDs.Generate` answers. -/
def add (genID : Except Error String) (faults : CreateFaults) (x : ρ) (s : Disk) : Except Error ρ × Disk :=
  match genID with
  | .error e => (.error e, s)
  | .ok genID =>
    match Server.atoi genID with
    | none => (.error (.errorf ("strconv.Atoi: parsing " ++ genID)), s)
    | some id =>
      let x := d.withID id x
      let (err, s') := d.create faults (d.file d.dir x) x s
      (err.map fun _ => x, s')

structure DeleteFaults where
  lookup : LookupFaults := {}
  remove : Option Error := none

def delete (faults : DeleteFaults) (x : ρ) (s : Disk) : Except Error Unit × Disk :=
  match d.idToFile faults.lookup (d.id x) s with
  | .error e => (.error e, s)
  | .ok (_, file) =>
    match s.remove faults.remove file with
    | .error e => (.error e, s)
    | .ok s' => (.ok (), s')

def get (faults : LookupFaults) (id : ℤ) (s : Disk) : Except Error ρ :=
  match d.idToFile faults id s with
  | .error e => .error e
  | .ok (board, _) => .ok board

structure UpdateFaults where
  lookup : LookupFaults := {}
  delete : DeleteFaults := {}
  create : CreateFaults := {}

def update (faults : UpdateFaults) (x : ρ) (s : Disk) : Except Error Unit × Disk :=
  match d.idToFile faults.lookup (d.id x) s with
  | .error e => (.error e, s)
  | .ok (board, _) =>
    match d.delete faults.delete board s with
    | (.error e, s') => (.error e, s')
    | (.ok (), s') => d.create faults.create (d.file d.dir x) x s'

end Store

end Filestore
end Chronograf
