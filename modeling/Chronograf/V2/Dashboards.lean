/-
# Dashboards of the second version of the API

The records of `v2/dashboard.go` and their JSON, in which nothing is lost.

Key definitions: `Dashboard`, `DashboardUpdate`.
-/
import Chronograf.Lib.Marshal

namespace Chronograf
namespace Platform

open Marshal

/-- Where a cell is on a dashboard. -/
structure DashboardCell where
  x : Int32 := 0
  y : Int32 := 0
  w : Int32 := 0
  h : Int32 := 0
  ref : String := ""
  deriving DecidableEq

instance : Marshal DashboardCell where
  zero := {}
  marshal c := .obj [("x", marshal c.x), ("y", marshal c.y), ("w", marshal c.w), ("h", marshal c.h),
    ("ref", marshal c.ref)]
  unmarshal := record {} fun c k j => match k with
    | "x" => (unmarshal j).map fun v => { c with x := v }
    | "y" => (unmarshal j).map fun v => { c with y := v }
    | "w" => (unmarshal j).map fun v => { c with w := v }
    | "h" => (unmarshal j).map fun v => { c with h := v }
    | "ref" => (unmarshal j).map fun v => { c with ref := v }
    | _ => some c
  stored := id
  unmarshal_marshal c := by simp

instance : Lossless DashboardCell := ⟨fun _ => rfl⟩

structure Dashboard where
  id : String := ""
  name : String := ""
  cells : Slice DashboardCell := ⟨none⟩
  deriving DecidableEq

instance : Marshal Dashboard where
  zero := {}
  marshal d := .obj [("id", marshal d.id), ("name", marshal d.name), ("cells", marshal d.cells)]
  unmarshal := record {} fun d k j => match k with
    | "id" => (unmarshal j).map fun v => { d with id := v }
    | "name" => (unmarshal j).map fun v => { d with name := v }
    | "cells" => (unmarshal j).map fun v => { d with cells := v }
    | _ => some d
  stored := id
  unmarshal_marshal d := by simp

instance : Lossless Dashboard := ⟨fun _ => rfl⟩

/-- What is given of a dashboard to change it. -/
structure DashboardUpdate where
  name : Option String := none
  cells : Slice DashboardCell := ⟨none⟩
  deriving DecidableEq

end Platform
end Chronograf
