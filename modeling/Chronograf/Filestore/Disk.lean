/-
# Files

What `filestore` asks of `os`, `ioutil` and `path`: a directory is listed by its
names in order, a file is read, truncated or removed. Every one of these may fail,
with any error, and has then done nothing.

Key definitions: `Disk`, `Disk.readDir`, `Disk.readFile`, `Disk.create`,
`Disk.store`, `Disk.remove`.
-/
import Chronograf.Lib.Paths
import Chronograf.Types
import Mathlib.Data.UInt
import Mathlib.Logic.Function.Basic
import Std.Data.TreeMap.Lemmas

namespace Chronograf
namespace Filestore

open Paths

abbrev Text := List Char

abbrev Byte := UInt8

/-- The names on the way from the root. -/
abbrev Path := List Text

/-! ### Directories -/

inductive Node
  | file (content : List Byte)
  | directory
  deriving DecidableEq

abbrev Listing := Std.TreeMap Text Node

/-- What each directory lists. -/
abbrev Disk := Path → Option Listing

namespace Disk

def node (s : Disk) (p : Path) : Option Node := do
  let listing ← s p.dropLast
  let name ← p.getLast?
  listing[name]?

def set (s : Disk) (dir : Path) (listing : Option Listing) : Disk := Function.update s dir listing

/-- `ioutil.ReadDir(dir)`: the names, in order. -/
def readDir (fails : Option Error) (dir : Path) (s : Disk) : Except Error (List Text) :=
  match fails, s dir with
  | some e, _ => .error e
  | none, none => .error (.errorf "no such file or directory")
  | none, some listing => .ok listing.keys

/-- `ioutil.ReadFile(p)` -/
def readFile (fails : Option Error) (p : Path) (s : Disk) : Except Error (List Byte) :=
  match fails, s.node p with
  | some e, _ => .error e
  | none, none => .error (.errorf "no such file or directory")
  | none, some .directory => .error (.errorf "is a directory")
  | none, some (.file content) => .ok content

/-- The file has this content. -/
def store (s : Disk) (p : Path) (content : List Byte) : Disk :=
  match s p.dropLast, p.getLast? with
  | some listing, some name => s.set p.dropLast (some (listing.insert name (.file content)))
  | _, _ => s

/-- `os.Create(p)`: the file is there, and empty. -/
def create (fails : Option Error) (p : Path) (s : Disk) : Except Error Disk :=
  match fails, s p.dropLast, s.node p with
  | some e, _, _ => .error e
  | none, none, _ => .error (.errorf "no such file or directory")
  | none, some _, some .directory => .error (.errorf "is a directory")
  | none, some _, _ => if p = [] then .error (.errorf "is a directory") else .ok (s.store p [])

/-- `os.Remove(p)`, which also removes a directory without entries. -/
def remove (fails : Option Error) (p : Path) (s : Disk) : Except Error Disk :=
  match fails, s p.dropLast, p.getLast?, s.node p with
  | some e, _, _, _ => .error e
  | none, some listing, some name, some (.file _) => .ok (s.set p.dropLast (some (listing.erase name)))
  | none, some listing, some name, some .directory =>
    if (s p).all (·.isEmpty) then .ok ((s.set p none).set p.dropLast (some (listing.erase name)))
    else .error (.errorf "directory not empty")
  | none, _, _, _ => .error (.errorf "no such file or directory")

end Disk

end Filestore
end Chronograf
