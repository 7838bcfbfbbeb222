/-
# The services of the second version over whole runs

A run is a list of calls of both services on one file. It conforms to two maps
if in every state it goes through reading shows the maps, and every call is
answered as they would. `Client.Open` creates the bucket of the cells only:
without that of the dashboards every one of their calls is a panic. And the
update of a cell takes the empty visualization, which stands for none where
updates are read and checked, for one that is given.

Key definitions: `State`, `Conforms`, `File.Ready`, `State.Good`.
Key theorem: `conforms_iff`.
-/
import Chronograf.Bolt.MapsV2
import Chronograf.Lib.Runs

namespace Chronograf
namespace Platform

open Marshal Records

/-! ### What the services are to keep -/

/-- The fields an update gives, and no more. -/
def DashboardUpdate.given (upd : DashboardUpdate) (d : Dashboard) : Dashboard :=
  { d with
    name := upd.name.getD d.name
    cells := if upd.cells.elems = none then d.cells else upd.cells }

instance : MapRecords Dashboard DashboardUpdate where
  given := DashboardUpdate.given
  Kept _ := True
  Keeps _ _ := True
  notFound_ne := nofun
  id_withID _ _ := rfl
  id_updated upd d := by
    obtain ⟨_ | name, ⟨_ | cells⟩⟩ := upd <;> rfl
  id_given _ _ := rfl
  kept_withID_iff _ _ := iff_of_true rfl trivial
  kept_iff _ := iff_of_true rfl trivial
  keeps_iff upd d := by
    refine iff_of_true ?_ trivial
    obtain ⟨_ | name, ⟨_ | cells⟩⟩ := upd <;> rfl
  updated_eq upd d _ := by
    obtain ⟨_ | name, ⟨_ | cells⟩⟩ := upd <;> rfl

/-- The visualization an update gives: an empty one is none, as for `CellUpdate.Valid`. -/
def CellUpdate.givenVisualization (upd : CellUpdate) : Option Visualization :=
  match upd.visualization with
  | some .emptyVisualization => none
  | v => v

def CellUpdate.given (upd : CellUpdate) (c : Cell) : Cell :=
  { c with
    name := upd.name.getD c.name
    visualization := upd.givenVisualization.or c.visualization }

/-- An update that is refused because it gives nothing is one that changes nothing. -/
theorem CellUpdate.given_of_not_valid {upd : CellUpdate} (h : upd.valid = false) (c : Cell) : upd.given c = c := by
  obtain ⟨_ | name, _ | vis⟩ := upd
  · exact absurd h (by decide)
  · cases vis with
    | emptyVisualization => rfl
    | v1Visualization v => exact absurd h (by simp [CellUpdate.valid])
    | other => exact absurd h (by simp [CellUpdate.valid])
  · exact absurd h (by simp [CellUpdate.valid])
  · exact absurd h (by simp [CellUpdate.valid])

/-- A request that gives a name and no visualization is read as an update with the
empty visualization. -/
theorem CellUpdate.unmarshalJSON_name (name : String) : CellUpdate.unmarshalJSON (.obj [("name", .str name)]) =
    some { name := some name, visualization := some .emptyVisualization } := rfl

/-- The visualization that is written can be read back, and an empty one is
written over an empty one only. -/
def CellUpdate.Keeps (upd : CellUpdate) (c : Cell) : Prop :=
  match upd.visualization with
  | none => Visualization.Kept c.visualization
  | some .emptyVisualization => c.visualization = some .emptyVisualization
  | some v => Visualization.Kept (some v)

theorem CellUpdate.stored_updateCell_iff (upd : CellUpdate) (c : Cell) :
    stored (updateCell upd c) = upd.given c ↔ upd.Keeps c := by
  obtain ⟨name, vis⟩ := upd
  obtain ⟨⟨i, n⟩, v⟩ := c
  have hstored : ∀ (v v' : Option Visualization) (n n' : String), n = n' →
      ((⟨⟨i, n⟩, some (Visualization.stored v)⟩ : Cell) = ⟨⟨i, n'⟩, v'⟩ ↔ some (Visualization.stored v) = v') := by
    rintro v v' n _ rfl
    simp
  cases vis with
  | none =>
    refine Iff.trans ?_ (Visualization.stored_eq_iff (v := v))
    cases name <;> exact hstored _ _ _ _ rfl
  | some vis =>
    cases vis with
    | emptyVisualization =>
      refine Iff.trans (b := some Visualization.emptyVisualization = v) ?_ eq_comm
      cases name <;> exact hstored _ _ _ _ rfl
    | v1Visualization w =>
      refine Iff.trans ?_ (Visualization.stored_eq_iff (v := some (.v1Visualization w)))
      cases name <;> exact hstored _ _ _ _ rfl
    | other =>
      refine Iff.trans ?_ (Visualization.stored_eq_iff (v := some .other))
      cases name <;> exact hstored _ _ _ _ rfl

theorem CellUpdate.updateCell_eq {upd : CellUpdate} {c : Cell} (h : upd.Keeps c) : updateCell upd c = upd.given c := by
  obtain ⟨name, vis⟩ := upd
  obtain ⟨⟨i, n⟩, v⟩ := c
  cases vis with
  | none => cases name <;> rfl
  | some vis =>
    cases vis with
    | emptyVisualization =>
      obtain rfl : v = some .emptyVisualization := h
      cases name <;> rfl
    | v1Visualization w => cases name <;> rfl
    | other => cases name <;> rfl

instance : MapRecords Cell CellUpdate where
  given := CellUpdate.given
  Kept c := Visualization.Kept c.visualization
  Keeps := CellUpdate.Keeps
  notFound_ne := nofun
  id_withID _ _ := rfl
  id_updated upd c := by
    obtain ⟨_ | name, _ | vis⟩ := upd <;> rfl
  id_given _ _ := rfl
  kept_withID_iff _ _ := Cell.stored_eq_iff
  kept_iff _ := Cell.stored_eq_iff
  keeps_iff := CellUpdate.stored_updateCell_iff
  updated_eq _ _ := CellUpdate.updateCell_eq

/-! ### Runs -/

/-- The file, and the maps that the services are to be. -/
structure State where
  file : File
  dashboards : Live Dashboard
  cells : Live Cell

namespace State

/-- A file that has just been opened. -/
def start (f : File) : State where
  file := Client.openFile f
  dashboards := contents f.dashboardsv3
  cells := contents f.cellsv2

def next (s : State) (c : Call) : State :=
  match c with
  | .dashboard d =>
    { s with
      file := Client.step s.file c
      dashboards := after s.dashboards d (Records.step s.file.dashboardsv3 d).1 }
  | .cell d =>
    { s with
      file := Client.step s.file c
      cells := after s.cells d (Records.step s.file.cellsv2 d).1 }

/-- Reading shows both maps. -/
def Shows (s : State) : Prop := Reads s.file.dashboardsv3 s.dashboards ∧ Reads s.file.cellsv2 s.cells

/-- The call is answered as the map would. -/
def Answered (s : State) : Call → Prop
  | .dashboard c => Answers s.dashboards c (Records.step s.file.dashboardsv3 c).1
  | .cell c => Answers s.cells c (Records.step s.file.cellsv2 c).1

/-- The call writes what can be read back, and changes what it gives and no more. -/
def Good (s : State) : Call → Prop
  | .dashboard c => Records.Good s.dashboards c
  | .cell c => Records.Good s.cells c

/-- The records of both maps are under their IDs. -/
def InPlace (s : State) : Prop := Records.InPlace s.dashboards ∧ Records.InPlace s.cells

theorem inPlace_start (f : File) : (start f).InPlace := ⟨inPlace_contents _, inPlace_contents _⟩

theorem InPlace.next {s : State} (hs : s.InPlace) (c : Call) : (s.next c).InPlace := by
  cases c with
  | dashboard c => exact ⟨hs.1.after _ _, hs.2⟩
  | cell c => exact ⟨hs.1, hs.2.after _ _⟩

theorem shows_next_iff {s : State} (hs : s.InPlace) (hshows : s.Shows) (c : Call) : (s.next c).Shows ↔ s.Good c := by
  cases c with
  | dashboard c => exact (and_iff_left hshows.2).trans (reads_step_iff hs.1 hshows.1 c)
  | cell c => exact (and_iff_right hshows.1).trans (reads_step_iff hs.2 hshows.2 c)

theorem answered {s : State} (hs : s.InPlace) (hshows : s.Shows) {c : Call} (hc : s.Good c) : s.Answered c := by
  cases c with
  | dashboard c => exact answers_step hs.1 hshows.1 hc
  | cell c => exact answers_step hs.2 hshows.2 hc

end State

/-- The file has the bucket of the dashboards, and all records in it can be read. -/
structure File.Ready (f : File) : Prop where
  dashboardsv3 : f.dashboardsv3 ≠ none
  dashboards : Readable Dashboard f.dashboardsv3
  cells : Readable Cell f.cellsv2

theorem File.shows_start_iff (f : File) : (State.start f).Shows ↔ f.Ready := by
  obtain ⟨od, oc⟩ := f
  have hd : Reads od (contents od : Live Dashboard) ↔ od ≠ none ∧ Readable Dashboard od := by
    rw [reads_iff (inPlace_contents od)]
    cases od with
    | none => exact iff_of_false (fun ⟨_, h, _⟩ => nomatch h) fun h => h.1 rfl
    | some b =>
      rw [← represents_contents_iff]
      constructor
      · rintro ⟨_, ⟨⟩, h⟩
        exact ⟨nofun, h⟩
      · exact fun h => ⟨b, rfl, h.2⟩
  have hc : Reads (Client.createBucketIfNotExists oc) (contents oc : Live Cell) ↔ Readable Cell oc := by
    rw [reads_iff (inPlace_contents oc)]
    cases oc with
    | none => exact iff_of_true ⟨_, rfl, fun i => rfl⟩ fun _ h => nomatch h
    | some b =>
      rw [← represents_contents_iff]
      constructor
      · rintro ⟨_, ⟨⟩, h⟩
        exact h
      · exact fun h => ⟨b, rfl, h⟩
  constructor
  · rintro ⟨h1, h2⟩
    exact ⟨(hd.mp h1).1, (hd.mp h1).2, hc.mp h2⟩
  · rintro ⟨h1, h2, h3⟩
    exact ⟨hd.mpr ⟨h1, h2⟩, hc.mpr h3⟩

/-- In every state of the run both services show the maps, and every call of it
is answered as the maps would. -/
def Conforms (f : File) (calls : List Call) : Prop :=
  (∀ pre, pre <+: calls → (pre.foldl State.next (.start f)).Shows) ∧
    ∀ pre c, pre ++ [c] <+: calls → (pre.foldl State.next (.start f)).Answered c

/-- A run conforms if and only if the file has the bucket of the dashboards and
can be read, every record that is written can be read back, and no update of a
cell writes an empty visualization over another. -/
theorem conforms_iff (f : File) (calls : List Call) :
    Conforms f calls ↔
      f.Ready ∧ ∀ pre c, pre ++ [c] <+: calls → (pre.foldl State.next (.start f)).Good c := by
  have hrun := fun hready => foldl_keeps_iff (P := State.Shows) (fun _ c hs => hs.next c)
    (fun _ c hs hshows => State.shows_next_iff hs hshows c) (State.inPlace_start f)
    (f.shows_start_iff.mpr hready) calls
  constructor
  · rintro ⟨hshows, -⟩
    have hready : f.Ready := f.shows_start_iff.mp (hshows [] List.nil_prefix)
    exact ⟨hready, (hrun hready).mp hshows⟩
  · rintro ⟨hready, hgood⟩
    have hshows := (hrun hready).mpr hgood
    refine ⟨hshows, fun pre c hpre => ?_⟩
    have hin : (pre.foldl State.next (.start f)).InPlace :=
      foldl_keeps (fun _ c hs => hs.next c) pre _ (State.inPlace_start f)
    exact State.answered hin (hshows pre ((List.prefix_append _ _).trans hpre)) (hgood pre c hpre)

/-- On a new file the first call of the dashboards is a panic; and with the bucket
there, to rename a cell erases what it shows. -/
theorem new_file_panics :
    ¬ Conforms {} [.dashboard (.create { name := "cpu" })] ∧
      ¬ Conforms { dashboardsv3 := some .empty }
        [.cell (.create { name := "cpu", visualization := some (.v1Visualization { type := "line" }) }),
          .cell (.update "1" { name := some "mem", visualization := some .emptyVisualization })] := by
  constructor
  · rintro ⟨-, h⟩
    rcases h [] _ List.prefix_rfl with ⟨i, hi⟩ | ⟨e, he⟩
    · exact absurd hi (by simp [Records.step, State.start, Client.openFile, Client.initializeCells, deref])
    · exact absurd he (by simp [Records.step, State.start, Client.openFile, Client.initializeCells, deref])
  · rintro ⟨-, h⟩
    rcases h [_] _ List.prefix_rfl with hfound | ⟨e, he⟩
    · have hvisualization : ∀ {d d' : Cell}, Reply.found d = Reply.found d' → d.visualization = d'.visualization := by
        intro d d' h
        cases h
        rfl
      cases hvisualization hfound
    · cases he

end Platform
end Chronograf
