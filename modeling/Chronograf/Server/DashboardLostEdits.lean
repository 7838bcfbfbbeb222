/-
# Two edits of one dashboard

A request that edits a part of a dashboard reads all of it in its first
transaction and writes all of it in its last one. If one request has written
before the other one reads, the dashboard shows both edits. Otherwise the
second to write writes over the edit of the first, and the dashboard shows both
only if the first edit changed nothing.

Key definitions: `DashboardEdit.address`, `twoRequests`, `BothEditsShown`,
`DashboardEdit.Unchanging`.
Key theorem: `both_edits_shown_iff`.
-/
import Chronograf.Server.DashboardFrames

namespace Chronograf

open Internal (Decoded rereadCell)

/-- The cell as it is read once it is stored, without time shifts: they do not
outlive the next edit of the dashboard. -/
def DashboardCell.plain (c : DashboardCell) : DashboardCell := (rereadCell c).withoutShifts

theorem ident_plain (c : DashboardCell) : ident c.plain = ident c := rfl

theorem ident_rereadCell (c : DashboardCell) : ident (rereadCell c) = ident c := rfl

theorem rereadCell_rereadCell (c : DashboardCell) : rereadCell (rereadCell c) = c.plain :=
  (Internal.decoded_rereadCell c).reread

theorem plain_rereadCell (c : DashboardCell) : (rereadCell c).plain = c.plain := by
  rw [DashboardCell.plain, rereadCell_rereadCell, DashboardCell.plain, DashboardCell.withoutShifts_idem]

theorem plain_of_decoded {c : DashboardCell} (h : Decoded c) : c.plain = rereadCell c := by
  rw [DashboardCell.plain, h.reread, DashboardCell.withoutShifts_idem]

namespace Server

open Bolt.DashboardsStore (stored stored_put stored_delete withCellIDs)
open Internal (marshalDashboard)

/-! ### What an edit is about -/

/-- A part of a dashboard. -/
inductive Address
  | name
  | cell (id : String)
  | template (id : String)
  deriving DecidableEq

namespace DashboardEdit

def address : DashboardEdit → Address
  | name _ => .name
  | cells e => .cell e.ident
  | templates e => .template e.ident

/-- The edit, its cell changed by `f`. -/
def mapCells (f : DashboardCell → DashboardCell) : DashboardEdit → DashboardEdit
  | cells e => .cells (e.map f)
  | e => e

variable {e : DashboardEdit} {d d' : Dashboard} {f : DashboardCell → DashboardCell} {k : String}

/-- An edit may be made before or after changing all cells. -/
theorem apply_mapCells (hf : ∀ c, (f c).id = c.id) (h : e.apply d = some d') :
    (e.mapCells f).apply (Server.mapCells f d) = some (Server.mapCells f d') := by
  cases e with
  | name n =>
    obtain rfl := Option.some.inj h
    rfl
  | cells e =>
    obtain ⟨cs, hcs, rfl⟩ := Option.map_eq_some_iff.mp h
    have hmap : (e.map f).apply (d.cells.map f) = some (cs.map f) := by
      rw [Parts.Edit.apply_map hf, hcs, Option.map_some]
    show ((e.map f).apply (d.cells.map f)).map _ = _
    rw [hmap]
    rfl
  | templates e =>
    obtain ⟨ts, hts, rfl⟩ := Option.map_eq_some_iff.mp h
    show (e.apply d.templates).map _ = _
    rw [hts]
    rfl

/-! Parts that an edit is not about stay. -/

theorem apply_name_other (h : e.apply d = some d') (hne : e.address ≠ .name) : d'.name = d.name := by
  cases e with
  | name n => exact absurd rfl hne
  | cells e =>
    obtain ⟨cs, -, rfl⟩ := Option.map_eq_some_iff.mp h
    rfl
  | templates e =>
    obtain ⟨ts, -, rfl⟩ := Option.map_eq_some_iff.mp h
    rfl

theorem withIdent_cells_other (h : e.apply d = some d') (hne : e.address ≠ .cell k) :
    Parts.withIdent k d'.cells = Parts.withIdent k d.cells := by
  cases e with
  | name n =>
    obtain rfl := Option.some.inj h
    rfl
  | cells e =>
    obtain ⟨cs, hcs, rfl⟩ := Option.map_eq_some_iff.mp h
    exact Parts.Edit.filter_other hcs fun hk => hne (congrArg Address.cell hk)
  | templates e =>
    obtain ⟨ts, -, rfl⟩ := Option.map_eq_some_iff.mp h
    rfl

theorem withIdent_templates_other (h : e.apply d = some d') (hne : e.address ≠ .template k) :
    Parts.withIdent k d'.templates = Parts.withIdent k d.templates := by
  cases e with
  | name n =>
    obtain rfl := Option.some.inj h
    rfl
  | cells e =>
    obtain ⟨cs, -, rfl⟩ := Option.map_eq_some_iff.mp h
    rfl
  | templates e =>
    obtain ⟨ts, hts, rfl⟩ := Option.map_eq_some_iff.mp h
    exact Parts.Edit.filter_other hts fun hk => hne (congrArg Address.template hk)

/-- An edit can still be made after another one, whatever happens to the cells. -/
theorem applies_after {e₂ : DashboardEdit} {d₂ : Dashboard} (hf : ∀ c, (f c).id = c.id)
    (hne : e.address ≠ e₂.address) (h : e.apply d = some d') (h₂ : e₂.apply d = some d₂) :
    ∃ d₃, e₂.apply (Server.mapCells f d') = some d₃ := by
  cases e₂ with
  | name n => exact ⟨_, rfl⟩
  | cells e₂ =>
    obtain ⟨cs, hcs, -⟩ := Option.map_eq_some_iff.mp h₂
    obtain ⟨cs', hcs'⟩ := Parts.Edit.applies_congr (withIdent_cells_other h hne) hcs
    obtain ⟨m, hm⟩ := Parts.Edit.applies_map hf hcs'
    exact ⟨_, by show (e₂.apply (d'.cells.map f)).map _ = _; rw [hm]; rfl⟩
  | templates e₂ =>
    obtain ⟨ts, hts, -⟩ := Option.map_eq_some_iff.mp h₂
    obtain ⟨ts', hts'⟩ := Parts.Edit.applies_congr (withIdent_templates_other h hne) hts
    exact ⟨_, by show (e₂.apply d'.templates).map _ = _; rw [hts']; rfl⟩

/-- The cells keep having IDs, if the edit is not about one without. -/
theorem named_apply (h : e.apply d = some d') (hd : ∀ c ∈ d.cells, c.id ≠ "") (hne : e.address ≠ .cell "") :
    ∀ c ∈ d'.cells, c.id ≠ "" := by
  cases e with
  | name n =>
    obtain rfl := Option.some.inj h
    exact hd
  | cells e =>
    obtain ⟨cs, hcs, rfl⟩ := Option.map_eq_some_iff.mp h
    intro c hc
    rcases Parts.Edit.mem_of_apply hcs hc with hc | hc
    · exact hd c hc
    · intro hid
      exact hne (congrArg Address.cell (hc.symm.trans hid))
  | templates e =>
    obtain ⟨ts, -, rfl⟩ := Option.map_eq_some_iff.mp h
    exact hd

/-- The edit changes nothing but, perhaps, the time shifts. -/
def Unchanging (e : DashboardEdit) (d : Dashboard) : Prop :=
  ∃ d', e.apply d = some d' ∧ Server.mapCells DashboardCell.plain d' = Server.mapCells DashboardCell.plain d

end DashboardEdit

/-! ### One written over the other

Both edits are made of the dashboard that was read, `d`. What is left is the
second one's, `dg`; it is compared with what the two give one after the other. -/

/-- The same dashboard, but for the order of the cells and templates that `old`
does not have. -/
structure SameUpToNew (old d d' : Dashboard) : Prop where
  id : d.id = d'.id
  name : d.name = d'.name
  organization : d.organization = d'.organization
  cells : Parts.SameUpToNew (old.cells.map ident) d.cells d'.cells
  templates : Parts.SameUpToNew (old.templates.map ident) d.templates d'.templates

theorem SameUpToNew.refl (old d : Dashboard) : SameUpToNew old d d := ⟨rfl, rfl, rfl, .refl _ _, .refl _ _⟩

section Compared

variable {a b : DashboardEdit} {d da db d' : Dashboard}

/-- One edit after the other, of what was written and read again. -/
def Serial (a b : DashboardEdit) (d d' : Dashboard) : Prop :=
  ∃ d₁, a.apply d = some d₁ ∧ b.apply (mapCells rereadCell d₁) = some d'

theorem plain_cells_reread (d : Dashboard) :
    (mapCells rereadCell d).cells.map DashboardCell.plain = d.cells.map DashboardCell.plain := by
  show (d.cells.map rereadCell).map _ = _
  rw [List.map_map]
  exact List.map_congr_left fun c _ => plain_rereadCell c

/-- The name, cells or templates that `a` is about look as `a` leaves them, whichever
edit comes first. -/
theorem unchanging_of_same (hne : a.address ≠ b.address) (ha : a.apply d = some da) (hb : b.apply d = some db)
    (hserial : Serial a b d d' ∨ Serial b a d d')
    (hsame : SameUpToNew d (mapCells rereadCell db) (mapCells rereadCell d')) : a.Unchanging d := by
  refine ⟨da, ha, ?_⟩
  cases a with
  | name n =>
    obtain rfl := Option.some.inj ha
    have hleft : db.name = d.name := DashboardEdit.apply_name_other hb hne.symm
    have hright : d'.name = n := by
      rcases hserial with ⟨d₁, h₁, h₂⟩ | ⟨d₁, h₁, h₂⟩
      · obtain rfl := Option.some.inj h₁
        exact DashboardEdit.apply_name_other h₂ hne.symm
      · obtain rfl := Option.some.inj h₂
        rfl
    have hn : n = d.name := by
      rw [← hright, ← hleft]
      exact hsame.name.symm
    rw [hn]
  | cells e =>
    obtain ⟨cs, hcs, rfl⟩ := Option.map_eq_some_iff.mp ha
    have hother := DashboardEdit.withIdent_cells_other hb hne.symm
    have hleft : Parts.withIdent e.ident (db.cells.map DashboardCell.plain) =
        Parts.withIdent e.ident (d.cells.map DashboardCell.plain) := by
      rw [Parts.withIdent_map ident_plain, Parts.withIdent_map ident_plain, hother]
    have hright : Parts.withIdent e.ident (d'.cells.map DashboardCell.plain) =
        Parts.withIdent e.ident (cs.map DashboardCell.plain) := by
      rcases hserial with ⟨d₁, h₁, h₂⟩ | ⟨d₁, h₁, h₂⟩
      · obtain rfl := Option.some.inj (ha.symm.trans h₁)
        have hlast := DashboardEdit.withIdent_cells_other h₂ hne.symm
        rw [Parts.withIdent_map ident_plain, hlast, ← Parts.withIdent_map ident_plain,
          plain_cells_reread]
      · obtain rfl := Option.some.inj (hb.symm.trans h₁)
        obtain ⟨m, hm, rfl⟩ := Option.map_eq_some_iff.mp h₂
        refine Parts.Edit.withIdent_congr ident_plain hcs hm ?_
        rw [plain_cells_reread]
        exact hleft
    have hcells : cs.map DashboardCell.plain = d.cells.map DashboardCell.plain := by
      refine Parts.Edit.map_eq_of_perm ident_plain hcs ?_ ?_ hsame.cells.perm
      · rw [plain_cells_reread]
        exact hleft
      · rw [plain_cells_reread]
        exact hright
    unfold mapCells
    rw [hcells]
  | templates e =>
    obtain ⟨ts, hts, rfl⟩ := Option.map_eq_some_iff.mp ha
    have hid : ∀ l : List Template, l.map (fun t => t) = l := List.map_id'
    have hleft := DashboardEdit.withIdent_templates_other hb hne.symm
    have hright : Parts.withIdent e.ident d'.templates = Parts.withIdent e.ident ts := by
      rcases hserial with ⟨d₁, h₁, h₂⟩ | ⟨d₁, h₁, h₂⟩
      · obtain rfl := Option.some.inj (ha.symm.trans h₁)
        exact DashboardEdit.withIdent_templates_other h₂ hne.symm
      · obtain rfl := Option.some.inj (hb.symm.trans h₁)
        obtain ⟨m, hm, rfl⟩ := Option.map_eq_some_iff.mp h₂
        have hcongr := Parts.Edit.withIdent_congr (f := fun t => t) (fun _ => rfl) hts hm
        rw [hid, hid, hid, hid] at hcongr
        exact hcongr hleft
    have htemplates : ts = d.templates := by
      rw [← hid ts, ← hid d.templates]
      refine Parts.Edit.map_eq_of_perm (fun _ => rfl) hts ?_ ?_ hsame.templates.perm
      · rw [hid, hid]
        exact hleft
      · rw [hid, hid]
        exact hright
    rw [htemplates]

/-- If `a` changes nothing, the two one after the other give what `b` gives alone. -/
theorem same_of_unchanging (hd : ∀ c ∈ d.cells, Decoded c) (ha : a.Unchanging d) (hb : b.apply d = some db)
    (hserial : Serial a b d d') : mapCells rereadCell db = mapCells rereadCell d' := by
  obtain ⟨da, hda, hplain⟩ := ha
  obtain ⟨d₁, h₁, h₂⟩ := hserial
  obtain rfl : da = d₁ := Option.some.inj (hda.symm.trans h₁)
  have htwice : mapCells rereadCell (mapCells rereadCell da) = mapCells DashboardCell.plain da := by
    unfold mapCells
    rw [List.map_map]
    simp only [Function.comp_def, rereadCell_rereadCell]
  have honce : mapCells rereadCell d = mapCells DashboardCell.plain d := by
    unfold mapCells
    rw [List.map_congr_left fun c hc => (plain_of_decoded (hd c hc)).symm]
  have hleft := DashboardEdit.apply_mapCells ident_rereadCell hb
  have hright := DashboardEdit.apply_mapCells ident_rereadCell h₂
  rw [htwice, hplain, ← honce, hleft] at hright
  exact Option.some.inj hright

end Compared

/-! ### Stored cells have IDs -/

/-- Every cell of every stored dashboard has an ID. -/
def CellsNamed (db : Db) : Prop := ∀ id d, stored db id = some d → ∀ c ∈ d.cells, c.id ≠ ""

theorem cellsNamed_empty : CellsNamed Db.empty := fun _ _ hd => nomatch hd

theorem cellsNamed_put {db : Db} {b : Bucket Internal.Dashboard} {d : Dashboard}
    (h : CellsNamed { db with dashboards := b }) (hd : ∀ c ∈ d.cells, c.id ≠ "") :
    CellsNamed { db with dashboards := b.put (marshalDashboard d) } := by
  intro id d' hd' c hc
  rw [stored_put] at hd'
  split_ifs at hd'
  · obtain rfl := Option.some.inj hd'
    rw [Internal.unmarshal_marshal] at hc
    obtain ⟨c', hc', rfl⟩ := List.mem_map.mp hc
    exact hd c' hc'
  · exact h id d' hd' c hc

/-- Whatever the dashboards store does, the stored cells keep having IDs, if the
generator gives some. -/
theorem dashboardsStore_keeps_named {ids : ℕ → String} (hids : ∀ i, ids i ≠ "") (ctx : Context) (d : Dashboard) :
    let R := fun db db' => CellsNamed db → CellsNamed db'
    Tx.Within R ((Bolt.dashboardsStore ids).add ctx d) ∧ Tx.Within R ((Bolt.dashboardsStore ids).update ctx d) ∧
      Tx.Within R ((Bolt.dashboardsStore ids).delete ctx d) := by
  refine ⟨?_, ?_, ?_⟩
  · intro db hdb
    refine cellsNamed_put (b := db.dashboards.nextSequence) hdb fun c hc => ?_
    obtain ⟨i, hi, rfl⟩ := List.mem_mapIdx.mp hc
    exact hids i
  · intro db hdb
    show CellsNamed ((Bolt.DashboardsStore.update ids ctx d).run db).2
    cases hget : db.dashboards.get (Int.repr d.id) with
    | none =>
      have hrun : (Bolt.DashboardsStore.update ids ctx d).run db = (.error .errDashboardNotFound, db) :=
        Tx.run_update_error (by rw [hget])
      rw [hrun]
      exact hdb
    | some v =>
      have hrun : (Bolt.DashboardsStore.update ids ctx d).run db = (.ok (), written ids db d) :=
        Tx.run_update_ok (by rw [hget]; rfl)
      rw [hrun]
      refine cellsNamed_put hdb fun c hc => ?_
      obtain ⟨i, hi, rfl⟩ := List.mem_mapIdx.mp hc
      split_ifs with hc
      · exact hc
      · exact hids i
  · intro db hdb id d' hd'
    have hdel : stored { db with dashboards := db.dashboards.delete (Int.repr d.id) } id = some d' := hd'
    rw [stored_delete] at hdel
    split_ifs at hdel
    exact hdb id d' hdel

/-! ### Two requests -/

section Requests

variable {s : Service} {ctx : Context} {call : DashboardCall} {param : String} {db : Db} {id : ℤ} {d d' : Dashboard}
  {e : DashboardEdit}

theorem Sees.of_organization (h : Sees ctx d) (horg : d'.organization = d.organization) : Sees ctx d' := by
  rcases h with hserver | hctx
  · exact .inl hserver
  · exact .inr (horg ▸ hctx)

/-- What is read of a dashboard whose cells have IDs, once it is written. -/
theorem stored_written_named (ids : ℕ → String) (db : Db) (hd : ∀ c ∈ d.cells, c.id ≠ "") :
    stored (written ids db d) d.id = some (mapCells rereadCell d) := by
  rw [stored_written]
  have hcells : d.cells.mapIdx (savedCell ids) = d.cells.map rereadCell := by
    refine List.ext_getElem? fun i => ?_
    rw [List.getElem?_mapIdx, List.getElem?_map]
    cases hi : d.cells[i]? with
    | none => rfl
    | some c =>
      have hc := hd c (List.mem_of_getElem? hi)
      simp [savedCell, hc]
  rw [hcells]
  rfl

theorem writes_eq (hd : stored db id = some d) (he : call.edit = some e) (happly : e.apply d = some d') (cur : Db) :
    writes s.ids id call db cur = written s.ids cur d' := by
  unfold writes
  rw [hd, Option.bind_some, DashboardCall.apply, he, Option.bind_some, happly]

/-- A request that goes on, with nobody between its transactions. -/
theorem after_of_proceeds (h : call.Edits param) (hid : paramID param = .ok id) (hp : Proceeds ctx id call db) :
    (call.handler s).after ctx db = writes s.ids id call db db := by
  obtain ⟨d, d', hd, hsees, happly⟩ := hp
  obtain ⟨r, hr⟩ := (run_edit_ok_iff h hid).mpr ⟨d, d', hd, hsees, happly, rfl⟩
  rw [Handler.after, hr, writes, hd, Option.bind_some, happly]

end Requests

/-- Two requests at one store. -/
def twoRequests (s : Service) (ctx : Bool → Context) (call : Bool → DashboardCall) (db : Db) :
    Tx.Config Bool Response Db Response :=
  ⟨fun i => (call i).handler s (ctx i), db⟩

/-- The store after request `k` and then the other one, each run alone. -/
def afterBoth (s : Service) (ctx : Bool → Context) (call : Bool → DashboardCall) (db : Db) (k : Bool) : Db :=
  ((call !k).handler s).after (ctx !k) (((call k).handler s).after (ctx k) db)

/-- The dashboard stored in `final` is the one that the two requests leave one after
the other, up to the order of new cells and templates. -/
def BothEditsShown (s : Service) (ctx : Bool → Context) (call : Bool → DashboardCall) (db : Db) (id : ℤ)
    (final : Db) : Prop :=
  ∃ k old d d', stored db id = some old ∧ stored final id = some d ∧
    stored (afterBoth s ctx call db k) id = some d' ∧ SameUpToNew old d d'

/-- The schedule begins with all transactions of one request, or the request that
writes first changes nothing. -/
def NoEditLost (ctx : Bool → Context) (e : Bool → DashboardEdit) (d : Dashboard) (sched : List Bool) : Prop :=
  (∃ k, List.replicate (looks (ctx k) + 2) k <+: sched) ∨
    (e (Tx.firstDone (fun i => looks (ctx i) + 1) sched)).Unchanging d

section Interleaved

variable {s : Service} {ctx : Bool → Context} {call : Bool → DashboardCall} {param : Bool → String}
  {e : Bool → DashboardEdit} {db : Db} {id : ℤ} {d : Dashboard}

/-- Both requests can be made one after the other, in either order. -/
theorem stored_afterBoth (s : Service) (k : Bool) (hcall : ∀ i, (call i).Edits (param i)) (hid : ∀ i, paramID (param i) = .ok id)
    (hedit : ∀ i, (call i).edit = some (e i)) (hne : ∀ i, (e i).address ≠ (e !i).address)
    (hgen : ∀ i, (e i).address ≠ .cell "") (hd : stored db id = some d) (hnamed : ∀ c ∈ d.cells, c.id ≠ "")
    (hp : ∀ i, Proceeds (ctx i) id (call i) db) :
    ∃ d', Serial (e k) (e !k) d d' ∧ stored (afterBoth s ctx call db k) id = some (mapCells rereadCell d') := by
  have happlies : ∀ i, ∃ d', Sees (ctx i) d ∧ (e i).apply d = some d' := by
    intro i
    obtain ⟨d₀, d', hd₀, hsees, happly⟩ := hp i
    obtain rfl := Option.some.inj (hd.symm.trans hd₀)
    rw [DashboardCall.apply, hedit i, Option.bind_some] at happly
    exact ⟨d', hsees, happly⟩
  obtain ⟨d₁, -, h₁⟩ := happlies k
  obtain ⟨d₂, hsees, h₂⟩ := happlies !k
  have hself := Bolt.DashboardsStore.id_of_stored hd
  -- the first request, and what the second one reads
  have hfirst : ((call k).handler s).after (ctx k) db = written s.ids db d₁ := by
    rw [after_of_proceeds (hcall k) (hid k) (hp k), writes_eq hd (hedit k) h₁]
  have hnamed₁ := DashboardEdit.named_apply h₁ hnamed (hgen k)
  have hid₁ : d₁.id = id := (DashboardEdit.apply_id h₁).trans hself
  have hread : stored (written s.ids db d₁) id = some (mapCells rereadCell d₁) := by
    rw [← hid₁]
    exact stored_written_named s.ids db hnamed₁
  -- the second one
  obtain ⟨d₃, h₃⟩ := DashboardEdit.applies_after ident_rereadCell (hne k) h₁ h₂
  have horg : d₁.organization = d.organization := DashboardEdit.apply_organization h₁
  have hsees₁ : Sees (ctx !k) (mapCells rereadCell d₁) := hsees.of_organization horg
  have happly₃ : (call !k).apply (mapCells rereadCell d₁) = some d₃ := by
    rw [DashboardCall.apply, hedit, Option.bind_some, h₃]
  have hnamed₃ := DashboardEdit.named_apply h₃ (fun c hc => by
    obtain ⟨c', hc', rfl⟩ := List.mem_map.mp hc
    exact hnamed₁ c' hc') (hgen !k)
  have hid₃ : d₃.id = id := (DashboardEdit.apply_id h₃).trans hid₁
  refine ⟨d₃, ⟨d₁, h₁, h₃⟩, ?_⟩
  rw [afterBoth, hfirst, after_of_proceeds (hcall !k) (hid !k) ⟨_, d₃, hread, hsees₁, happly₃⟩,
    writes_eq hread (hedit !k) h₃, ← hid₃]
  exact stored_written_named s.ids _ hnamed₃

/-- An edit that is made is not about a cell without an ID. -/
theorem address_ne_blank {call : DashboardCall} {e : DashboardEdit} {d' : Dashboard} (hedit : call.edit = some e)
    (hgen : ∀ body param, call ≠ .newDashboardCell body (.ok "") param) (hnamed : ∀ c ∈ d.cells, c.id ≠ "")
    (happly : e.apply d = some d') : e.address ≠ .cell "" := by
  have hfound : ∀ {i : ℕ}, Parts.position "" d.cells = some i → False := by
    intro i hi
    obtain ⟨before, x, after, hf, -⟩ := Parts.position_eq_some_iff.mp hi
    exact hnamed x (by rw [hf.split]; simp) hf.ident
  intro haddr
  cases e with
  | name n => cases haddr
  | templates e => cases haddr
  | cells e =>
    have hblank : e.ident = "" := Address.cell.inj haddr
    obtain ⟨cs, hcs, -⟩ := Option.map_eq_some_iff.mp happly
    cases e with
    | remove k =>
      obtain ⟨i, hi, -⟩ := Option.map_eq_some_iff.mp hcs
      rw [show k = "" from hblank] at hi
      exact hfound hi
    | replace c =>
      obtain ⟨i, hi, -⟩ := Option.map_eq_some_iff.mp hcs
      rw [show ident c = "" from hblank] at hi
      exact hfound hi
    | add c =>
      cases call with
      | newDashboardCell body uuid param =>
        obtain ⟨cell, -, hcell⟩ := Option.bind_eq_some_iff.mp hedit
        obtain ⟨cid, hcid, heq⟩ := Option.map_eq_some_iff.mp hcell
        cases uuid with
        | error err => cases hcid
        | ok u =>
          obtain rfl := Option.some.inj hcid
          cases heq
          exact hgen body param (by rw [show u = "" from hblank])
      | updateDashboard body param =>
        cases body with
        | none => cases hedit
        | some req =>
          simp only [DashboardCall.edit] at hedit
          split at hedit <;> cases hedit
      | newTemplate body uuid param =>
        obtain ⟨template, -, htemplate⟩ := Option.bind_eq_some_iff.mp hedit
        obtain ⟨tid, -, heq⟩ := Option.map_eq_some_iff.mp htemplate
        cases heq
      | _ => simp [DashboardCall.edit] at hedit

/-- Two requests that edit different parts of one dashboard and both succeed, in
some interleaving of their transactions: the dashboard shows both edits if and
only if no edit was lost. -/
theorem both_edits_shown_iff (s : Service) (ctx : Bool → Context) (call : Bool → DashboardCall)
    (param : Bool → String) (e : Bool → DashboardEdit) (db : Db) (id : ℤ) (d : Dashboard) (sched : List Bool)
    (hcall : ∀ i, (call i).Edits (param i)) (hid : ∀ i, paramID (param i) = .ok id)
    (hedit : ∀ i, (call i).edit = some (e i)) (hne : (e false).address ≠ (e true).address)
    (hgen : ∀ i body param, call i ≠ .newDashboardCell body (.ok "") param) (hd : stored db id = some d)
    (hdb : CellsNamed db) (hok : ∀ i, ((twoRequests s ctx call db).run sched).Succeeds i) :
    BothEditsShown s ctx call db id ((twoRequests s ctx call db).run sched).store ↔ NoEditLost ctx e d sched := by
  have hnamed : ∀ c ∈ d.cells, c.id ≠ "" := hdb id d hd
  have hne' : ∀ i, (e i).address ≠ (e !i).address := by
    intro i
    cases i
    · exact hne
    · exact hne.symm
  have hrmw : ∀ i, Tx.RmwOrFails (Proceeds (ctx i) id (call i)) (writes s.ids id (call i)) (looks (ctx i))
      ((twoRequests s ctx call db).procs i) := by
    intro i
    rcases edit_rmw s (ctx i) (hcall i) (hid i) with ⟨r, hr⟩ | h
    · exact absurd (hok i) (Tx.Config.not_succeeds_of_error hr)
    · exact h
  rcases Tx.Config.run_two_rmw hrmw sched hok with ⟨k, hpre, hk, hother, hfinal⟩ | ⟨hpre, hp, hfinal⟩
  · -- one after the other
    refine ⟨fun _ => .inl ⟨k, hpre⟩, fun _ => ?_⟩
    have hstep : ((call k).handler s).after (ctx k) db = writes s.ids id (call k) db db :=
      after_of_proceeds (hcall k) (hid k) hk
    have hboth : afterBoth s ctx call db k = ((twoRequests s ctx call db).run sched).store := by
      rw [hfinal, afterBoth, hstep]
      exact after_of_proceeds (hcall !k) (hid !k) hother
    obtain ⟨d₁, d₂, hd₁, -, happly⟩ := hother
    rw [DashboardCall.apply, hedit, Option.bind_some] at happly
    have hid₂ : d₂.id = id := (DashboardEdit.apply_id happly).trans (Bolt.DashboardsStore.id_of_stored hd₁)
    rw [writes_eq hd₁ (hedit !k) happly] at hfinal
    have hread := stored_written s.ids (writes s.ids id (call k) db db) d₂
    rw [show written s.ids (writes s.ids id (call k) db db) d₂ = _ from hfinal.symm, hid₂] at hread
    exact ⟨k, d, _, _, hd, hread, hboth ▸ hread, .refl d _⟩
  · -- both read the same dashboard
    have hnot : ¬ ∃ k, List.replicate (looks (ctx k) + 2) k <+: sched := by
      rintro ⟨k, hk⟩
      exact hpre k hk
    unfold NoEditLost
    rw [or_iff_right hnot]
    generalize Tx.firstDone (fun i => looks (ctx i) + 1) sched = f at hfinal ⊢
    have happlies : ∀ i, ∃ d', (e i).apply d = some d' := by
      intro i
      obtain ⟨d₀, d', hd₀, -, happly⟩ := hp i
      obtain rfl := Option.some.inj (hd.symm.trans hd₀)
      rw [DashboardCall.apply, hedit, Option.bind_some] at happly
      exact ⟨d', happly⟩
    have hblank : ∀ i, (e i).address ≠ .cell "" := by
      intro i
      obtain ⟨d', happly⟩ := happlies i
      exact address_ne_blank (hedit i) (hgen i) hnamed happly
    obtain ⟨df, hf⟩ := happlies f
    obtain ⟨dg, hg⟩ := happlies !f
    have hself : dg.id = id := (DashboardEdit.apply_id hg).trans (Bolt.DashboardsStore.id_of_stored hd)
    have hread : stored ((twoRequests s ctx call db).run sched).store id = some (mapCells rereadCell dg) := by
      rw [hfinal]
      show stored (writes s.ids id (call !f) db (writes s.ids id (call f) db db)) id = _
      rw [writes_eq hd (hedit !f) hg, ← hself]
      exact stored_written_named s.ids _ (DashboardEdit.named_apply hg hnamed (hblank !f))
    have hserial := fun k => stored_afterBoth s k hcall hid hedit hne' hblank hd hnamed hp
    constructor
    · rintro ⟨k, old, x, y, hold, hx, hy, hsame⟩
      obtain rfl := Option.some.inj (hd.symm.trans hold)
      obtain rfl := Option.some.inj (hread.symm.trans hx)
      obtain ⟨d', hd', hboth⟩ := hserial k
      obtain rfl := Option.some.inj (hboth.symm.trans hy)
      refine unchanging_of_same (hne' f) hf hg ?_ hsame
      by_cases hk : k = f
      · subst hk
        exact .inl hd'
      · have hk' : k = !f := Bool.eq_not.mpr hk
        subst hk'
        rw [Bool.not_not] at hd'
        exact .inr hd'
    · intro hunch
      obtain ⟨d', hd', hboth⟩ := hserial f
      have hsame := same_of_unchanging (decoded_of_stored hd) hunch hg hd'
      exact ⟨f, d, _, _, hd, hread, hboth, hsame ▸ .refl d _⟩

end Interleaved

/-! A request of organization 1 names the dashboard anew while another one removes
its cell: both read, and the new name is written first. -/

def exampleRequests : Bool → DashboardCall
  | false => exampleRename
  | true => .removeDashboardCell "1" "c1"

def exampleEdits : Bool → DashboardEdit
  | false => .name "servers"
  | true => .cells (.remove "c1")

theorem exampleShiftedDb_named : CellsNamed exampleShiftedDb := by
  refine cellsNamed_put (b := Bucket.empty.nextSequence) (fun _ _ hd => nomatch hd) fun c hc => ?_
  obtain rfl := List.mem_singleton.mp hc
  decide

theorem both_edits_shown_iff_example :
    BothEditsShown exampleGenerator (fun _ => { organization := some "1" }) exampleRequests exampleShiftedDb 1
      ((twoRequests exampleGenerator (fun _ => { organization := some "1" }) exampleRequests exampleShiftedDb).run
        [false, true, false, true, false, true]).store ↔
    NoEditLost (fun _ => { organization := some "1" }) exampleEdits
      ⟨1, [rereadCell exampleShiftedCell], [], "hosts", "1"⟩ [false, true, false, true, false, true] :=
  both_edits_shown_iff exampleGenerator (fun _ => { organization := some "1" }) exampleRequests (fun _ => "1")
    exampleEdits exampleShiftedDb 1 ⟨1, [rereadCell exampleShiftedCell], [], "hosts", "1"⟩
    [false, true, false, true, false, true]
    (fun i => by cases i <;> constructor; decide) (fun i => rfl) (fun i => by cases i <;> rfl) (by decide)
    (fun i body param h => by cases i <;> cases h) (by decide) exampleShiftedDb_named
    (fun i => by cases i <;> exact ⟨_, rfl⟩)

/-- Both requests succeed, and the dashboard has its old name. -/
theorem dashboard_name_lost :
    (∀ i, ((twoRequests exampleGenerator (fun _ => { organization := some "1" }) exampleRequests exampleShiftedDb).run
      [false, true, false, true, false, true]).Succeeds i) ∧
    ¬ BothEditsShown exampleGenerator (fun _ => { organization := some "1" }) exampleRequests exampleShiftedDb 1
      ((twoRequests exampleGenerator (fun _ => { organization := some "1" }) exampleRequests exampleShiftedDb).run
        [false, true, false, true, false, true]).store := by
  refine ⟨fun i => by cases i <;> exact ⟨_, rfl⟩, ?_⟩
  rintro ⟨k, old, d, d', -, hd, hd', hsame⟩
  have hname : d.name = "hosts" := by
    have hlast : stored ((twoRequests exampleGenerator (fun _ => { organization := some "1" }) exampleRequests
        exampleShiftedDb).run [false, true, false, true, false, true]).store 1 = some ⟨1, [], [], "hosts", "1"⟩ := rfl
    rw [← Option.some.inj (hlast.symm.trans hd)]
  have hname' : d'.name = "servers" := by
    have hboth : stored (afterBoth exampleGenerator (fun _ => { organization := some "1" }) exampleRequests
        exampleShiftedDb k) 1 = some ⟨1, [], [], "servers", "1"⟩ := by cases k <;> rfl
    rw [← Option.some.inj (hboth.symm.trans hd')]
  have hdiff := hname.symm.trans (hsame.name.trans hname')
  exact absurd hdiff (by decide)

end Server
end Chronograf
