/-
# Where a new cell is put

`dashboards/utils/cellGetters.ts`: a new or cloned cell is put to the right of
the right-most cell of the row with the greatest top edge, or below it if there
is no room. A cell that begins higher and reaches down to there is not looked at.

Key definitions: `getNextAvailablePosition`, `Adding.add`, `WellPlaced`, `Clear`.
Key theorems: `disjoint_beside_iff`, `disjoint_below_iff`, `added_iff`.
-/
import Chronograf.Lib.Rectangles
import Mathlib.Logic.Function.Basic
import Mathlib.Data.List.Basic
import Mathlib.Data.List.Pairwise

namespace Chronograf
namespace CellGetters

/-- A cell; what is not about its place, its name or its type is in `rest`. -/
structure Cell (ρ : Type) where
  x : ℤ
  y : ℤ
  w : ℤ
  h : ℤ
  name : String
  type : String
  rest : ρ
  deriving DecidableEq

variable {ρ : Type}

def Cell.rect (c : Cell ρ) : Rect := ⟨c.x, c.y, c.w, c.h⟩

/-! ### Positions -/

structure Distribution where
  distribution : ℤ → ℕ
  mostCommonCount : ℕ
  mostCommonValue : Option ℤ

def Distribution.add (acc : Distribution) (value : ℤ) : Distribution :=
  let distribution := Function.update acc.distribution value (acc.distribution value + 1)
  if distribution value > acc.mostCommonCount then ⟨distribution, distribution value, some value⟩
  else { acc with distribution := distribution }

/-- The value that is the first to be there most often; none of no values. -/
def getMostCommonValue (values : List ℤ) : Option ℤ := (values.foldl Distribution.add ⟨fun _ => 0, 0, none⟩).mostCommonValue

/-- `reduce((a, b) => (a > b ? a : b))`; without values it is a `TypeError`. -/
def reduceMax : List ℤ → Option ℤ
  | [] => none
  | a :: values => some (values.foldl (fun a b => if a > b then a else b) a)

def numColumns : ℤ := 12

def getNextAvailablePosition (cells : List (Cell ρ)) (newCell : Cell ρ) : Option (ℤ × ℤ) := do
  let farthestY ← reduceMax (cells.map (·.y))
  let bottomCells := cells.filter (·.y = farthestY)
  let farthestX ← reduceMax (bottomCells.map (·.x))
  let lastCell ← bottomCells.find? (·.x = farthestX)
  let availableSpace := numColumns - (lastCell.x + lastCell.w)
  return if availableSpace ≥ newCell.w then (lastCell.x + lastCell.w, farthestY) else (0, lastCell.y + lastCell.h)

def untitledGraph : String := "Untitled Graph"

/-- `NEW_DEFAULT_DASHBOARD_CELL` with the type. -/
def typedCell (defaults : ρ) (cellType : String) : Cell ρ := ⟨0, 0, 4, 4, untitledGraph, cellType, defaults⟩

def getNewDashboardCell (defaults : ρ) (cells : List (Cell ρ)) (cellType : String) : Option (Cell ρ) :=
  match cells with
  | [] => some (typedCell defaults cellType)
  | cells => do
    let w ← getMostCommonValue (cells.map (·.w))
    let h ← getMostCommonValue (cells.map (·.h))
    let newCell := { typedCell defaults cellType with w := w, h := h }
    let (x, y) ← getNextAvailablePosition cells newCell
    return { newCell with x := x, y := y }

def getClonedDashboardCell (cells : List (Cell ρ)) (cloneCell : Cell ρ) : Option (Cell ρ) := do
  let (x, y) ← getNextAvailablePosition cells cloneCell
  return { cloneCell with x := x, y := y, name := cloneCell.name ++ " (clone)" }

/-- A new cell, or a clone of one of the cells. -/
inductive Adding (cells : List (Cell ρ))
  | new (defaults : ρ) (cellType : String)
  | clone (cell : Cell ρ) (h : cell ∈ cells)

def Adding.add {cells : List (Cell ρ)} : Adding cells → Option (Cell ρ)
  | new defaults cellType => getNewDashboardCell defaults cells cellType
  | clone cell _ => getClonedDashboardCell cells cell

/-! ### Places -/

/-- Not empty and within the columns. -/
def InColumns (r : Rect) : Prop := r.Nonempty ∧ 0 ≤ r.x ∧ r.x + r.w ≤ numColumns

/-- Cells within the columns that do not overlap. -/
structure WellPlaced (cells : List (Cell ρ)) : Prop where
  inColumns : ∀ c ∈ cells, InColumns c.rect
  disjoint : cells.Pairwise fun c d => Disjoint c.rect.squares d.rect.squares

/-- The right-most cell of the row with the greatest top edge. -/
structure IsLast (cells : List (Cell ρ)) (last : Cell ρ) : Prop where
  mem : last ∈ cells
  farthestY : ∀ c ∈ cells, c.y ≤ last.y
  farthestX : ∀ c ∈ cells, c.y = last.y → c.x ≤ last.x

/-- No cell reaches to where a cell of the width `w` is put: no higher one beside
the last cell, or none below the last one. -/
def Clear (cells : List (Cell ρ)) (w : ℤ) : Prop := ∀ last, IsLast cells last →
  if last.x + last.w + w ≤ numColumns then
    ∀ c ∈ cells, c.y < last.y → last.y < c.y + c.h → last.x + last.w < c.x + c.w → last.x + last.w + w ≤ c.x
  else ∀ c ∈ cells, c.x < w → c.y + c.h ≤ last.y + last.h

/-- The width of a cell that is added. -/
def Adding.width {cells : List (Cell ρ)} : Adding cells → ℤ
  | new _ _ => (getMostCommonValue (cells.map (·.w))).getD 4
  | clone cell _ => cell.w

/-! ### The last cell -/

variable {cells : List (Cell ρ)} {last c : Cell ρ}

theorem foldl_max_spec : ∀ (values : List ℤ) (a : ℤ),
    let m := values.foldl (fun a b => if a > b then a else b) a
    (m = a ∨ m ∈ values) ∧ a ≤ m ∧ ∀ b ∈ values, b ≤ m
  | [], a => ⟨.inl rfl, le_rfl, nofun⟩
  | b :: values, a => by
    obtain ⟨hmem, hle, hall⟩ := foldl_max_spec values (if a > b then a else b)
    have hboth : a ≤ (if a > b then a else b) ∧ b ≤ if a > b then a else b := by
      split_ifs <;> omega
    refine ⟨?_, hboth.1.trans hle, fun c hc => ?_⟩
    · rcases hmem with heq | hmem
      · rw [List.foldl_cons, heq]
        split_ifs
        · exact .inl rfl
        · exact .inr List.mem_cons_self
      · exact .inr (List.mem_cons_of_mem _ hmem)
    · rcases List.mem_cons.mp hc with rfl | hc
      · exact hboth.2.trans hle
      · exact hall c hc

theorem reduceMax_spec {values : List ℤ} (h : values ≠ []) : ∃ m, reduceMax values = some m ∧ m ∈ values ∧ ∀ b ∈ values, b ≤ m := by
  obtain ⟨a, values, rfl⟩ := List.exists_cons_of_ne_nil h
  obtain ⟨hmem, hle, hall⟩ := foldl_max_spec values a
  refine ⟨_, rfl, ?_, fun b hb => ?_⟩
  · rcases hmem with heq | hmem
    · exact List.mem_cons.mpr (.inl heq)
    · exact List.mem_cons_of_mem _ hmem
  · rcases List.mem_cons.mp hb with rfl | hb
    · exact hle
    · exact hall b hb

/-- The place of a new cell is beside or below the last cell. -/
theorem getNextAvailablePosition_eq (h : cells ≠ []) (newCell : Cell ρ) : ∃ last, IsLast cells last ∧
    getNextAvailablePosition cells newCell = some (if last.x + last.w + newCell.w ≤ numColumns then (last.x + last.w, last.y)
      else (0, last.y + last.h)) := by
  obtain ⟨farthestY, hY, hYmem, hYall⟩ := reduceMax_spec (mt List.map_eq_nil_iff.mp h : cells.map (·.y) ≠ [])
  obtain ⟨c, hc, hcy⟩ := List.mem_map.mp hYmem
  have hbottom : cells.filter (·.y = farthestY) ≠ [] := List.ne_nil_of_mem (List.mem_filter.mpr ⟨hc, decide_eq_true hcy⟩)
  obtain ⟨farthestX, hX, hXmem, hXall⟩ := reduceMax_spec (mt List.map_eq_nil_iff.mp hbottom : (cells.filter (·.y = farthestY)).map (·.x) ≠ [])
  obtain ⟨d, hd, hdx⟩ := List.mem_map.mp hXmem
  have hfind : ((cells.filter (·.y = farthestY)).find? (·.x = farthestX)).isSome :=
    List.find?_isSome.mpr ⟨d, hd, decide_eq_true hdx⟩
  obtain ⟨last, hlast⟩ := Option.isSome_iff_exists.mp hfind
  obtain ⟨hmem, hlasty⟩ := List.mem_filter.mp (List.mem_of_find?_eq_some hlast)
  have hy : last.y = farthestY := of_decide_eq_true hlasty
  have hx : last.x = farthestX := by simpa using List.find?_some hlast
  refine ⟨last, ⟨hmem, fun e he => ?_, fun e he hey => ?_⟩, ?_⟩
  · exact hy ▸ hYall _ (List.mem_map_of_mem he)
  · exact hx ▸ hXall _ (List.mem_map_of_mem (List.mem_filter.mpr ⟨he, decide_eq_true (hey.trans hy)⟩))
  · simp only [getNextAvailablePosition, hY, Option.bind_eq_bind, Option.bind_some, hX, hlast, hy]
    have hroom : numColumns - (last.x + last.w) ≥ newCell.w ↔ last.x + last.w + newCell.w ≤ numColumns := by omega
    exact congrArg some (if_congr hroom rfl rfl)

/-! ### Most common values -/

theorem distribution_spec : ∀ (values seen : List ℤ) (acc : Distribution),
    (∀ v ∈ acc.mostCommonValue, v ∈ seen) → (acc.mostCommonValue = none → acc.mostCommonCount = 0) →
    (∀ v ∈ (values.foldl Distribution.add acc).mostCommonValue, v ∈ seen ++ values) ∧
      (values ≠ [] ∨ acc.mostCommonValue.isSome → (values.foldl Distribution.add acc).mostCommonValue.isSome)
  | [], seen, acc, hseen, _ => ⟨fun v hv => List.mem_append_left _ (hseen v hv), fun h => h.resolve_left (· rfl)⟩
  | value :: values, seen, acc, hseen, hnone => by
    have hadd : (∀ v ∈ (acc.add value).mostCommonValue, v ∈ seen ++ [value]) ∧ (acc.add value).mostCommonValue.isSome := by
      rw [Distribution.add, Function.update_self]
      split_ifs with hmore
      · exact ⟨fun v hv => by simp [Option.mem_some_iff.mp hv], rfl⟩
      · refine ⟨fun v hv => List.mem_append_left _ (hseen v hv), ?_⟩
        by_contra hvalue
        exact hmore (by rw [hnone (Option.not_isSome_iff_eq_none.mp hvalue)]; exact Nat.succ_pos _)
    obtain ⟨hmem, hsome⟩ := distribution_spec values (seen ++ [value]) (acc.add value) hadd.1
      fun h => absurd hadd.2 (by rw [h]; nofun)
    rw [List.append_assoc, List.singleton_append] at hmem
    exact ⟨hmem, fun _ => hsome (.inr hadd.2)⟩

/-- The most common value is one of them. -/
theorem getMostCommonValue_mem {values : List ℤ} (h : values ≠ []) : ∃ v, getMostCommonValue values = some v ∧ v ∈ values := by
  obtain ⟨hmem, hsome⟩ := distribution_spec values [] ⟨fun _ => 0, 0, none⟩ nofun fun _ => rfl
  obtain ⟨v, hv⟩ := Option.isSome_iff_exists.mp (hsome (.inl h))
  exact ⟨v, hv, hmem v hv⟩

/-! ### Where there is room -/

theorem WellPlaced.nonempty (hcells : WellPlaced cells) (hc : c ∈ cells) : c.rect.Nonempty := (hcells.inColumns c hc).1

/-- Cells of one row with the last cell end before it or are it. -/
theorem row_before (hcells : WellPlaced cells) (hlast : IsLast cells last) (hc : c ∈ cells) (hy : c.y = last.y) :
    c.x + c.w ≤ last.x + last.w := by
  have hcw : 0 < c.w := (hcells.nonempty hc).1
  have hch : 0 < c.h := (hcells.nonempty hc).2
  have hlw : 0 < last.w := (hcells.nonempty hlast.mem).1
  have hlh : 0 < last.h := (hcells.nonempty hlast.mem).2
  have hx := hlast.farthestX c hc hy
  have hsymm : Std.Symm fun c d : Cell ρ => Disjoint c.rect.squares d.rect.squares := ⟨fun _ _ h => h.symm⟩
  by_cases heq : c = last
  · rw [heq]
  · have hdisjoint := hcells.disjoint.forall hc hlast.mem heq
    rw [Rect.disjoint_iff (hcells.nonempty hc) (hcells.nonempty hlast.mem)] at hdisjoint
    simp only [Cell.rect] at hdisjoint
    omega

/-- To the right of the last cell only a higher one can be in the way. -/
theorem disjoint_beside_iff (hcells : WellPlaced cells) (hlast : IsLast cells last) (hc : c ∈ cells) {w h : ℤ} (hw : 0 < w) (hh : 0 < h) :
    Disjoint c.rect.squares (Rect.mk (last.x + last.w) last.y w h).squares ↔
      (c.y < last.y → last.y < c.y + c.h → last.x + last.w < c.x + c.w → last.x + last.w + w ≤ c.x) := by
  rw [Rect.disjoint_iff (hcells.nonempty hc) ⟨hw, hh⟩]
  simp only [Cell.rect]
  have hy := hlast.farthestY c hc
  rcases hy.eq_or_lt with heq | hlt
  · have hrow := row_before hcells hlast hc heq
    omega
  · omega

/-- Below the last cell only one that reaches deeper can be in the way. -/
theorem disjoint_below_iff (hcells : WellPlaced cells) (hlast : IsLast cells last) (hc : c ∈ cells) {w h : ℤ} (hw : 0 < w) (hh : 0 < h) :
    Disjoint c.rect.squares (Rect.mk 0 (last.y + last.h) w h).squares ↔ (c.x < w → c.y + c.h ≤ last.y + last.h) := by
  rw [Rect.disjoint_iff (hcells.nonempty hc) ⟨hw, hh⟩]
  simp only [Cell.rect]
  have hy := hlast.farthestY c hc
  have hx : 0 ≤ c.x := (hcells.inColumns c hc).2.1
  have hcw : 0 < c.w := (hcells.nonempty hc).1
  have hlh : 0 < last.h := (hcells.nonempty hlast.mem).2
  omega

theorem isLast_unique (hcells : WellPlaced cells) {last' : Cell ρ} (h : IsLast cells last) (h' : IsLast cells last') : last' = last := by
  by_contra hne
  have hy : last'.y = last.y := le_antisymm (h.farthestY _ h'.mem) (h'.farthestY _ h.mem)
  have hx : last'.x = last.x := le_antisymm (h.farthestX _ h'.mem hy) (h'.farthestX _ h.mem hy.symm)
  have hsymm : Std.Symm fun c d : Cell ρ => Disjoint c.rect.squares d.rect.squares := ⟨fun _ _ h => h.symm⟩
  have hdisjoint := hcells.disjoint.forall h'.mem h.mem hne
  obtain ⟨hw, hh⟩ := hcells.nonempty h.mem
  obtain ⟨hw', hh'⟩ := hcells.nonempty h'.mem
  rw [Rect.disjoint_iff ⟨hw', hh'⟩ ⟨hw, hh⟩] at hdisjoint
  simp only [Cell.rect] at *
  omega

/-- A cell of a size that fits into the columns is put where no other one is if
and only if its place is clear. -/
theorem placed_iff (hcells : WellPlaced cells) (hne : cells ≠ []) {newCell : Cell ρ} (hw : 0 < newCell.w) (hh : 0 < newCell.h)
    (hfits : newCell.w ≤ numColumns) : ∃ x y, getNextAvailablePosition cells newCell = some (x, y) ∧
      InColumns ⟨x, y, newCell.w, newCell.h⟩ ∧
      ((∀ c ∈ cells, Disjoint c.rect.squares (Rect.mk x y newCell.w newCell.h).squares) ↔ Clear cells newCell.w) := by
  obtain ⟨last, hlast, hposition⟩ := getNextAvailablePosition_eq hne newCell
  have hlx : 0 ≤ last.x := (hcells.inColumns last hlast.mem).2.1
  have hlw : 0 < last.w := (hcells.nonempty hlast.mem).1
  have hclear : ∀ P : Cell ρ → Prop, (∀ last, IsLast cells last → P last) ↔ P last := fun P =>
    ⟨fun h => h last hlast, fun h last' hlast' => isLast_unique hcells hlast hlast' ▸ h⟩
  rw [hposition, Clear, hclear]
  split_ifs with hroom
  · exact ⟨_, _, rfl, ⟨⟨hw, hh⟩, by dsimp only; omega, hroom⟩,
      forall₂_congr fun c hc => disjoint_beside_iff hcells hlast hc hw hh⟩
  · exact ⟨_, _, rfl, ⟨⟨hw, hh⟩, le_rfl, by dsimp only; omega⟩,
      forall₂_congr fun c hc => disjoint_below_iff hcells hlast hc hw hh⟩

/-- The cell that is added is within the columns, and it overlaps no other cell
if and only if its place is clear. -/
theorem added_iff {cells : List (Cell ρ)} (hcells : WellPlaced cells) (adding : Adding cells) :
    (∃ c, adding.add = some c ∧ InColumns c.rect ∧ ∀ d ∈ cells, Disjoint d.rect.squares c.rect.squares) ↔
      Clear cells adding.width := by
  have hplace : ∀ newCell : Cell ρ, cells ≠ [] → 0 < newCell.w → 0 < newCell.h → newCell.w ≤ numColumns → ∀ f : ℤ → ℤ → Cell ρ,
      (∀ x y, (f x y).rect = ⟨x, y, newCell.w, newCell.h⟩) →
      ((∃ c, ((getNextAvailablePosition cells newCell).map fun p => f p.1 p.2) = some c ∧ InColumns c.rect ∧
        ∀ d ∈ cells, Disjoint d.rect.squares c.rect.squares) ↔ Clear cells newCell.w) := by
    intro newCell hne hw hh hfits f hf
    obtain ⟨x, y, hposition, hin, hclear⟩ := placed_iff hcells hne hw hh hfits
    rw [hposition, ← hclear]
    constructor
    · rintro ⟨c, heq, _, hdisjoint⟩
      cases heq
      simpa only [hf] using hdisjoint
    · intro hdisjoint
      exact ⟨f x y, rfl, (hf x y).symm ▸ hin, by simpa only [hf] using hdisjoint⟩
  cases adding with
  | new defaults cellType =>
    by_cases hne : cells = []
    · subst hne
      have hfour : (0 : ℤ) < 4 := by decide
      have hcolumns : (0 : ℤ) + 4 ≤ 12 := by decide
      exact iff_of_true ⟨_, rfl, ⟨⟨hfour, hfour⟩, le_rfl, hcolumns⟩, nofun⟩ fun last hlast => nomatch hlast.mem
    · obtain ⟨w, hw, hwmem⟩ := getMostCommonValue_mem (mt List.map_eq_nil_iff.mp hne : cells.map (·.w) ≠ [])
      obtain ⟨h, hh, hhmem⟩ := getMostCommonValue_mem (mt List.map_eq_nil_iff.mp hne : cells.map (·.h) ≠ [])
      obtain ⟨c, hc, rfl⟩ := List.mem_map.mp hwmem
      obtain ⟨d, hd, rfl⟩ := List.mem_map.mp hhmem
      have hfits : c.w ≤ numColumns := by
        have hin := hcells.inColumns c hc
        have hx : 0 ≤ c.x := hin.2.1
        have hright : c.x + c.w ≤ numColumns := hin.2.2
        omega
      have hwidth : (Adding.new defaults cellType : Adding cells).width = c.w := by
        rw [Adding.width, hw, Option.getD_some]
      have hadd : (Adding.new defaults cellType : Adding cells).add =
          (getNextAvailablePosition cells { typedCell defaults cellType with w := c.w, h := d.h }).map fun p =>
            { typedCell defaults cellType with w := c.w, h := d.h, x := p.1, y := p.2 } := by
        obtain ⟨e, rest, rfl⟩ := List.exists_cons_of_ne_nil hne
        rw [Adding.add, getNewDashboardCell, hw, hh]
        · exact Option.map_eq_bind.symm
        · nofun
      rw [hwidth, hadd]
      exact hplace { typedCell defaults cellType with w := c.w, h := d.h } hne (hcells.nonempty hc).1 (hcells.nonempty hd).2 hfits
        (fun x y => { typedCell defaults cellType with w := c.w, h := d.h, x := x, y := y }) fun _ _ => rfl
  | clone cell hcell =>
    have hin := hcells.inColumns cell hcell
    have hx : 0 ≤ cell.x := hin.2.1
    have hright : cell.x + cell.w ≤ numColumns := hin.2.2
    have hadd : (Adding.clone cell hcell).add = (getNextAvailablePosition cells cell).map fun p =>
        { cell with x := p.1, y := p.2, name := cell.name ++ " (clone)" } := by
      rw [Adding.add, getClonedDashboardCell]
      cases getNextAvailablePosition cells cell <;> rfl
    rw [hadd]
    exact hplace cell (List.ne_nil_of_mem hcell) hin.1.1 hin.1.2 (by omega)
      (fun x y => { cell with x := x, y := y, name := cell.name ++ " (clone)" }) fun _ _ => rfl

/-- A tall cell on the left, and a cell on the right that begins lower. -/
def leftAndRight : List (Cell Unit) := [⟨0, 0, 6, 8, "tall", "line", ()⟩, ⟨6, 2, 6, 4, "low", "line", ()⟩]

theorem leftAndRight_wellPlaced : WellPlaced leftAndRight := by
  refine ⟨by simp [leftAndRight, InColumns, Cell.rect, Rect.Nonempty, numColumns], ?_⟩
  rw [leftAndRight, List.pairwise_pair, Rect.disjoint_iff ⟨by decide, by decide⟩ ⟨by decide, by decide⟩]
  exact .inl (by decide)

theorem added_iff_two : (∃ c, (Adding.new () "line" : Adding leftAndRight).add = some c ∧ InColumns c.rect ∧
    ∀ d ∈ leftAndRight, Disjoint d.rect.squares c.rect.squares) ↔ Clear leftAndRight (Adding.new () "line" : Adding leftAndRight).width :=
  added_iff leftAndRight_wellPlaced _

/-- The new cell is put below the cell on the right, at the left edge, into the tall one. -/
theorem new_cell_overlaps : ¬ ∀ (cells : List (Cell Unit)), WellPlaced cells → ∀ adding : Adding cells,
    ∃ c, adding.add = some c ∧ InColumns c.rect ∧ ∀ d ∈ cells, Disjoint d.rect.squares c.rect.squares := by
  intro h
  obtain ⟨c, hadd, _, hdisjoint⟩ := h leftAndRight leftAndRight_wellPlaced (.new () "line")
  have hplace : (Adding.new () "line" : Adding leftAndRight).add = some ⟨0, 6, 6, 8, "Untitled Graph", "line", ()⟩ := by
    decide
  rw [hplace] at hadd
  cases hadd
  have htall := hdisjoint ⟨0, 0, 6, 8, "tall", "line", ()⟩ List.mem_cons_self
  rw [Rect.disjoint_iff ⟨by decide, by decide⟩ ⟨by decide, by decide⟩] at htall
  exact absurd htall (by decide)

end CellGetters
end Chronograf
