/-
# Requests that edit a part of a dashboard

`UpdateDashboard` with a name and the requests that add, remove or replace a
cell or a template do the same thing: they read the dashboard, make one edit of
what they read, and write all of it back. The edit is known from the request
alone.

Key definitions: `DashboardEdit`, `DashboardCall.Edits`, `DashboardCall.apply`,
`editing`, `Sees`.
Key theorems: `handler_cases`, `run_edit_ok_iff`, `edit_rmw`.
-/
import Chronograf.Bolt.RoundTrip
import Chronograf.Lib.Parts
import Chronograf.Lib.ReadModifyWrite
import Chronograf.Server.DashboardIsolation

namespace Chronograf

instance : Identified DashboardCell String := ⟨DashboardCell.id⟩
instance : Identified Template String := ⟨Template.id⟩

@[simp] theorem ident_cell (c : DashboardCell) : ident c = c.id := rfl
@[simp] theorem ident_template (t : Template) : ident t = t.id := rfl

namespace Server

open Bolt.DashboardsStore (stored stored_put withCellIDs)
open Internal (marshalDashboard unmarshalDashboard rereadCell)

/-! ### Edits -/

/-- An edit of one part of a dashboard. -/
inductive DashboardEdit
  | name (n : String)
  | cells (e : Parts.Edit String DashboardCell)
  | templates (e : Parts.Edit String Template)
  deriving DecidableEq

def DashboardEdit.apply : DashboardEdit → Dashboard → Option Dashboard
  | name n, d => some { d with name := n }
  | cells e, d => (e.apply d.cells).map fun cs => { d with cells := cs }
  | templates e, d => (e.apply d.templates).map fun ts => { d with templates := ts }

/-- The dashboard with other cells. -/
def mapCells (f : DashboardCell → DashboardCell) (d : Dashboard) : Dashboard := { d with cells := d.cells.map f }

namespace DashboardEdit

variable {e : DashboardEdit} {d d' : Dashboard}

theorem apply_id (h : e.apply d = some d') : d'.id = d.id := by
  cases e with
  | name n =>
    obtain rfl := Option.some.inj h
    rfl
  | cells e =>
    obtain ⟨cs, -, rfl⟩ := Option.map_eq_some_iff.mp h
    rfl
  | templates e =>
    obtain ⟨ts, -, rfl⟩ := Option.map_eq_some_iff.mp h
    rfl

theorem apply_organization (h : e.apply d = some d') : d'.organization = d.organization := by
  cases e with
  | name n =>
    obtain rfl := Option.some.inj h
    rfl
  | cells e =>
    obtain ⟨cs, -, rfl⟩ := Option.map_eq_some_iff.mp h
    rfl
  | templates e =>
    obtain ⟨ts, -, rfl⟩ := Option.map_eq_some_iff.mp h
    rfl

end DashboardEdit

/-- The body of a request once it is decoded and checked. -/
def validBody {α : Type} (valid : α → Except Error α) : Option α → Except Response α
  | none => .error .invalidJSON
  | some a => (valid a).mapError .invalidData

/-- The template that was checked. -/
def checkedTemplate (t : Template) : Except Error Template := (validTemplateRequest t).map fun _ => t

namespace DashboardCall

/-- The requests that edit one part of the dashboard whose number is in the path
as `param`. -/
inductive Edits : DashboardCall → String → Prop
  | name (req : Dashboard) (param : String) (h : req.name ≠ "") : Edits (.updateDashboard (some req) param) param
  | newCell (body : Option DashboardCell) (uuid : Except String String) (param : String) :
      Edits (.newDashboardCell body uuid param) param
  | removeCell (param cid : String) : Edits (.removeDashboardCell param cid) param
  | replaceCell (body : Option DashboardCell) (param cid : String) : Edits (.replaceDashboardCell body param cid) param
  | newTemplate (body : Option Template) (uuid : Except String String) (param : String) :
      Edits (.newTemplate body uuid param) param
  | removeTemplate (param tid : String) : Edits (.removeTemplate param tid) param
  | replaceTemplate (body : Option Template) (param tid : String) : Edits (.replaceTemplate body param tid) param

/-- The edit that the request asks for, if its body is valid and an identifier
for a new part was generated. -/
def edit : DashboardCall → Option DashboardEdit
  | .updateDashboard (some req) _ => if req.name ≠ "" then some (.name req.name) else none
  | .newDashboardCell body uuid _ =>
    (validBody validDashboardCellRequest body).toOption.bind fun cell =>
      uuid.toOption.map fun cid => .cells (.add { cell with id := cid })
  | .removeDashboardCell _ cid => some (.cells (.remove cid))
  | .replaceDashboardCell body _ cid =>
    (validBody (fun cell => validDashboardCellRequest (withAxisBounds cell)) body).toOption.map fun cell =>
      .cells (.replace { cell with id := cid })
  | .newTemplate body uuid _ =>
    (validBody checkedTemplate body).toOption.bind fun template =>
      uuid.toOption.map fun tid => .templates (.add { template with id := tid })
  | .removeTemplate _ tid => some (.templates (.remove tid))
  | .replaceTemplate body _ tid =>
    (validBody checkedTemplate body).toOption.map fun template => .templates (.replace { template with id := tid })
  | _ => none

/-- The dashboard after the edit. -/
def apply (call : DashboardCall) (d : Dashboard) : Option Dashboard := call.edit.bind fun e => e.apply d

end DashboardCall

/-! ### The handlers are one handler -/

/-- What a handler has made of the dashboard it read: the one it is to write, and
what it answers. -/
structure Edited where
  dash : Dashboard
  failed : Error → Response
  answer : Response

/-- The rest of the handler. -/
def writeBack (s : Service) (ctx : Context) (r : Except Response Edited) : Tx Response Db Response := do
  let e ← Tx.ofExcept r
  ((Store.dashboards s.ids ctx).update ctx e.dash).mapError e.failed
  pure e.answer

/-- A handler that reads the dashboard `id`, and writes what `f` makes of it. -/
def editing (s : Service) (ctx : Context) (id : ℤ) (f : Dashboard → Except Response Edited) :
    Tx Response Db Response := do
  let d ← ((Store.dashboards s.ids ctx).get ctx id).mapError fun _ => .notFound (Int.repr id)
  writeBack s ctx (f d)

/-- `f` makes the edit of the call. -/
def Makes (f : Dashboard → Except Response Edited) (call : DashboardCall) : Prop :=
  ∀ d d', (∃ e, f d = .ok e ∧ e.dash = d') ↔ call.apply d = some d'

section Handlers

variable {s : Service} {ctx : Context} {id : ℤ} {param : String} {call : DashboardCall}

/-- A handler for parts, from the dashboard it read on. -/
theorem dashboardInPath_bind (hid : paramID param = .ok id) (K : ℤ × Dashboard → Tx Response Db Response) :
    (dashboardInPath s ctx param >>= K) =
      (((Store.dashboards s.ids ctx).get ctx id).mapError fun _ => .notFound (Int.repr id)) >>= fun d => K (id, d) := by
  unfold dashboardInPath
  rw [hid]
  show (((Store.dashboards s.ids ctx).get ctx id).mapError _ >>= fun dash => pure (id, dash)) >>= K = _
  exact Tx.bind_assoc _ _ _

theorem dashboardInPath_bind_error {err : Error} (hid : paramID param = .error err)
    (K : ℤ × Dashboard → Tx Response Db Response) :
    (dashboardInPath s ctx param >>= K) = Tx.fail (.ofError 422 err) := by
  unfold dashboardInPath
  rw [hid]
  rfl

/-- A handler for parts, if it makes the edit once it has read the dashboard. -/
theorem parts_cases {K : ℤ × Dashboard → Tx Response Db Response} {f : ℤ → Dashboard → Except Response Edited}
    (hcall : call.handler s ctx = dashboardInPath s ctx param >>= K)
    (hK : ∀ id d, K (id, d) = writeBack s ctx (f id d)) (hmakes : ∀ id, Makes (f id) call) :
    (∃ err r, paramID param = .error err ∧ call.handler s ctx = Tx.fail r) ∨
    ∃ id f, paramID param = .ok id ∧ call.handler s ctx = editing s ctx id f ∧ Makes f call := by
  cases hid : paramID param with
  | error err => exact .inl ⟨err, _, rfl, hcall.trans (dashboardInPath_bind_error hid K)⟩
  | ok id =>
    refine .inr ⟨id, f id, rfl, ?_, hmakes id⟩
    rw [hcall, dashboardInPath_bind hid]
    unfold editing
    congr 1
    funext d
    exact hK id d

theorem decode_bind {α : Type} (valid : α → Except Error α) (body : Option α) (K : α → Tx Response Db Response) :
    (do let a ← decode body; let a ← Tx.ofExcept ((valid a).mapError .invalidData); K a) =
      Tx.ofExcept (validBody valid body) >>= K := by
  cases body <;> rfl

/-- A template is checked and is itself what goes on. -/
theorem decode_template_bind (body : Option Template) (K : Template → Tx Response Db Response) :
    (do let t ← decode body; Tx.ofExcept ((validTemplateRequest t).mapError .invalidData); K t) =
      Tx.ofExcept (validBody checkedTemplate body) >>= K := by
  cases body with
  | none => rfl
  | some t =>
    show (Tx.ofExcept ((validTemplateRequest t).mapError Response.invalidData) >>= fun _ => K t) =
      Tx.ofExcept (((validTemplateRequest t).map fun _ => t).mapError Response.invalidData) >>= K
    cases validTemplateRequest t <;> rfl

/-- What may fail before anything is written. -/
theorem ofExcept_bind_writeBack {α : Type} {K : α → Tx Response Db Response} {g : α → Except Response Edited}
    (h : ∀ a, K a = writeBack s ctx (g a)) (r : Except Response α) :
    (Tx.ofExcept r >>= K) = writeBack s ctx (r >>= g) := by
  cases r with
  | error r => rfl
  | ok a => exact h a

/-- The handler has looked for the part that is to be removed or replaced. -/
theorem match_writeBack {K : ℕ → Tx Response Db Response} {g : ℕ → Except Response Edited} {r : Response}
    (h : ∀ i, K i = writeBack s ctx (g i)) (found : Option ℕ) :
    (match found with | none => Tx.fail r | some i => K i) =
      writeBack s ctx (match found with | none => .error r | some i => g i) := by
  cases found with
  | none => rfl
  | some i => exact h i

/-- The answer with the new cell, or without a body if it is not found again. -/
def newCellAnswer : Option DashboardCell → Response
  | some cell => { code := 200, body := [.cell cell] }
  | none => { code := 200 }

theorem newCellAnswer_eq : ∀ found : Option DashboardCell,
    (match found with
      | some cell => pure { code := 200, body := [.cell cell] }
      | none => pure { code := 200 } : Tx Response Db Response) = pure (newCellAnswer found)
  | some _ => rfl
  | none => rfl

theorem updateDashboard_cases (s : Service) (ctx : Context) {req : Dashboard} (hname : req.name ≠ "") (param : String) :
    (∃ err r, paramID param = .error err ∧ updateDashboard s (some req) param ctx = Tx.fail r) ∨
    ∃ id f, paramID param = .ok id ∧ updateDashboard s (some req) param ctx = editing s ctx id f ∧
      Makes f (.updateDashboard (some req) param) := by
  cases hid : paramID param with
  | error err =>
    refine .inl ⟨err, errorParsingID err, rfl, ?_⟩
    simp only [updateDashboard, hid]
    rfl
  | ok id =>
    refine .inr ⟨id, fun d => .ok ⟨{ d with name := req.name }, errorUpdating id, { code := 200, body :=
      [.dashboard (newDashboardResponse (withCellIDs s.ids { d with name := req.name }))] }⟩, rfl, ?_, ?_⟩
    · show (Tx.ofExcept ((paramID param).mapError errorParsingID) >>= _) = _
      rw [hid]
      show (((Store.dashboards s.ids ctx).get ctx id).mapError _ >>= _) =
        (((Store.dashboards s.ids ctx).get ctx id).mapError _ >>= _)
      congr 1
      funext d
      show (withNameOrCells s ctx d { req with id := id } >>= _) = _
      rw [withNameOrCells, if_pos hname]
      rfl
    · intro d d'
      simp [DashboardCall.apply, DashboardCall.edit, hname, DashboardEdit.apply]

/-- A part is put among the others, if the body is valid. -/
theorem makes_of_edit {α : Type} {r : Except Response α} (edit : α → DashboardEdit) {g : α → Dashboard → Edited}
    (hcall : call.edit = r.toOption.map edit) (hg : ∀ a d, (edit a).apply d = some (g a d).dash) :
    Makes (fun d => r.map fun a => g a d) call := by
  intro d d'
  rw [DashboardCall.apply, hcall]
  cases r with
  | error e => simp [Except.map, Except.toOption]
  | ok a => simp [Except.map, Except.toOption, hg]

/-- A part is removed, or replaced by one that is computed from the body, where
there is one. -/
theorem makes_of_position {α : Type} {r : Except Response α} {edit : α → DashboardEdit}
    {place : Dashboard → Option ℕ} {g : α → Dashboard → ℕ → Edited} {missing : Response}
    (hcall : call.edit = r.toOption.map edit)
    (hg : ∀ a d, (edit a).apply d = (place d).map fun i => (g a d i).dash) :
    Makes (fun d => match place d with
      | none => .error missing
      | some i => r.map fun a => g a d i) call := by
  intro d d'
  rw [DashboardCall.apply, hcall]
  cases r with
  | error e => cases hp : place d <;> simp [Except.map, Except.toOption, hp]
  | ok a => cases hp : place d <;> simp [Except.map, Except.toOption, hg, hp]

/-- Each of the handlers is `editing`, when there is a number in the path. -/
theorem handler_cases (s : Service) (ctx : Context) (h : call.Edits param) :
    (∃ err r, paramID param = .error err ∧ call.handler s ctx = Tx.fail r) ∨
    ∃ id f, paramID param = .ok id ∧ call.handler s ctx = editing s ctx id f ∧ Makes f call := by
  cases h with
  | name req param hname => exact updateDashboard_cases s ctx hname param
  | newCell body uuid param =>
    let r (id : ℤ) : Except Response DashboardCell := do
      let cell ← validBody validDashboardCellRequest body
      let cid ← uuid.mapError fun err =>
        .error 500 ("Error creating cell ID of dashboard " ++ Int.repr id ++ ": " ++ err)
      pure { cell with id := cid }
    let g (id : ℤ) (cell : DashboardCell) (d : Dashboard) : Edited :=
      let dash := { d with cells := d.cells ++ [cell] }
      ⟨dash, errorWriting "adding" "cell" cell.id "to" id, newCellAnswer
        ((newDashboardResponse (withCellIDs s.ids dash)).cells.find? fun c => c.id = cell.id)⟩
    refine parts_cases (f := fun id d => (r id).map fun cell => g id cell d) rfl (fun id d => ?_) fun id => ?_
    · refine (decode_bind validDashboardCellRequest body _).trans ?_
      cases hbody : validBody validDashboardCellRequest body with
      | error e => simp only [r, hbody]; rfl
      | ok cell =>
        simp only [r, hbody]
        cases uuid with
        | error err => rfl
        | ok cid =>
          show (((Store.dashboards s.ids ctx).update ctx _).mapError _ >>= _) =
            (((Store.dashboards s.ids ctx).update ctx _).mapError _ >>= _)
          congr 1
          funext _
          exact newCellAnswer_eq _
    · refine makes_of_edit (fun cell => .cells (.add cell)) ?_ fun cell d => rfl
      simp only [DashboardCall.edit, r]
      cases validBody validDashboardCellRequest body <;> cases uuid <;> rfl
  | removeCell param cid =>
    let g (id : ℤ) (_ : Unit) (d : Dashboard) (i : ℕ) : Edited :=
      ⟨{ d with cells := d.cells.eraseIdx i }, errorWriting "removing" "cell" cid "from" id, { code := 204 }⟩
    refine parts_cases (f := fun id d => match Parts.position cid d.cells with
      | none => .error (.notFound (Int.repr id))
      | some i => (Except.ok ()).map fun a => g id a d i) rfl (fun id d => ?_) fun id => ?_
    · refine match_writeBack (fun i => ?_) (Parts.position cid d.cells)
      rfl
    · have hedit : ∀ d, (DashboardEdit.cells (.remove cid)).apply d =
          (Parts.position cid d.cells).map fun i => (g id () d i).dash := fun d => Option.map_map _ _ _
      exact makes_of_position rfl fun _ d => hedit d
  | replaceCell body param cid =>
    let g (id : ℤ) (cell : DashboardCell) (d : Dashboard) (i : ℕ) : Edited :=
      ⟨{ d with cells := d.cells.set i { cell with id := cid } }, errorWriting "updating" "cell" cid "in" id,
        { code := 200, body := [.cell (newCellResponse { cell with id := cid })] }⟩
    refine parts_cases (f := fun id d => match Parts.position cid d.cells with
      | none => .error (.notFound cid)
      | some i => (validBody (fun cell => validDashboardCellRequest (withAxisBounds cell)) body).map fun cell =>
          g id cell d i) rfl (fun id d => ?_) fun id => ?_
    · refine match_writeBack (fun i => ?_) (Parts.position cid d.cells)
      refine (decode_bind (fun cell => validDashboardCellRequest (withAxisBounds cell)) body _).trans ?_
      cases validBody (fun cell => validDashboardCellRequest (withAxisBounds cell)) body <;> rfl
    · exact makes_of_position rfl fun cell d => Option.map_map _ _ _
  | newTemplate body uuid param =>
    let r (id : ℤ) : Except Response Template := do
      let template ← validBody checkedTemplate body
      let tid ← uuid.mapError fun err =>
        .error 500 ("Error creating template ID for dashboard " ++ Int.repr id ++ ": " ++ err)
      pure { template with id := tid }
    let g (id : ℤ) (template : Template) (d : Dashboard) : Edited :=
      ⟨{ d with templates := d.templates ++ [template] }, errorWriting "adding" "template" template.id "to" id,
        { code := 200, body := [.template template] }⟩
    refine parts_cases (f := fun id d => (r id).map fun t => g id t d) rfl (fun id d => ?_) fun id => ?_
    · refine (decode_template_bind body _).trans ?_
      cases hbody : validBody checkedTemplate body with
      | error e => simp only [r, hbody]; rfl
      | ok template =>
        simp only [r, hbody]
        cases uuid <;> rfl
    · refine makes_of_edit (fun t => .templates (.add t)) ?_ fun t d => rfl
      simp only [DashboardCall.edit, r]
      cases validBody checkedTemplate body <;> cases uuid <;> rfl
  | removeTemplate param tid =>
    let g (id : ℤ) (_ : Unit) (d : Dashboard) (i : ℕ) : Edited :=
      ⟨{ d with templates := d.templates.eraseIdx i }, errorWriting "removing" "template" tid "from" id,
        { code := 204 }⟩
    refine parts_cases (f := fun id d => match Parts.position tid d.templates with
      | none => .error (.notFound (Int.repr id))
      | some i => (Except.ok ()).map fun a => g id a d i) rfl (fun id d => ?_) fun id => ?_
    · refine match_writeBack (fun i => ?_) (Parts.position tid d.templates)
      rfl
    · have hedit : ∀ d, (DashboardEdit.templates (.remove tid)).apply d =
          (Parts.position tid d.templates).map fun i => (g id () d i).dash := fun d => Option.map_map _ _ _
      exact makes_of_position rfl fun _ d => hedit d
  | replaceTemplate body param tid =>
    let g (id : ℤ) (template : Template) (d : Dashboard) (i : ℕ) : Edited :=
      ⟨{ d with templates := d.templates.set i { template with id := tid } },
        errorWriting "updating" "template" tid "in" id,
        { code := 200, body := [.template { template with id := tid }] }⟩
    refine parts_cases (f := fun id d => match Parts.position tid d.templates with
      | none => .error (.notFound (Int.repr id))
      | some i => (validBody checkedTemplate body).map fun template => g id template d i) rfl (fun id d => ?_)
        fun id => ?_
    · refine match_writeBack (fun i => ?_) (Parts.position tid d.templates)
      refine (decode_template_bind body _).trans ?_
      cases validBody checkedTemplate body <;> rfl
    · exact makes_of_position rfl fun template d => Option.map_map _ _ _

end Handlers

/-! ### What the handlers do to the store -/

/-- A request with the context gets to see the dashboard: the server sees all of
them, a request made in an organization those of the organization. -/
def Sees (ctx : Context) (d : Dashboard) : Prop := hasServerContext ctx = true ∨ InOrganization ctx d.organization

/-- What the store makes of a cell in position `i` that is written and read again. -/
def savedCell (ids : ℕ → String) (i : ℕ) (c : DashboardCell) : DashboardCell :=
  rereadCell (if c.id ≠ "" then c else { c with id := ids i })

/-- The store with the dashboard written. -/
def written (ids : ℕ → String) (db : Db) (d : Dashboard) : Db :=
  { db with dashboards := db.dashboards.put (marshalDashboard (withCellIDs ids d)) }

section Effects

variable {ids : ℕ → String} {ctx : Context} {db : Db} {id : ℤ} {d d' : Dashboard}

theorem stored_written (ids : ℕ → String) (db : Db) (d : Dashboard) :
    stored (written ids db d) d.id = some { d with cells := d.cells.mapIdx (savedCell ids) } := by
  have hself : d.id = (marshalDashboard (withCellIDs ids d)).id := rfl
  rw [written, stored_put, if_pos hself, Internal.unmarshal_marshal]
  congr 1
  rw [Dashboard.mk.injEq]
  refine ⟨rfl, ?_, rfl, rfl, rfl⟩
  refine List.ext_getElem? fun i => ?_
  simp only [withCellIDs, List.getElem?_map, List.getElem?_mapIdx, Option.map_map]
  rfl

/-- The server gets the store itself, a request made in an organization its
facade; any other one sees nothing and gets the store that refuses. -/
theorem store_cases (ids : ℕ → String) (ctx : Context) :
    hasServerContext ctx = true ∧ Store.dashboards ids ctx = Bolt.dashboardsStore ids ∨
    (∃ org, InOrganization ctx org) ∨
    (∀ d, ¬ Sees ctx d) ∧ Store.dashboards ids ctx = Noop.dashboardsStore := by
  cases hserver : hasServerContext ctx with
  | true => exact .inl ⟨rfl, Store.select_server hserver⟩
  | false =>
    cases horg : hasOrganizationContext ctx with
    | some org => exact .inr (.inl ⟨org, hserver, horg⟩)
    | none =>
      refine .inr (.inr ⟨?_, ?_⟩)
      · rintro d (hs | hctx)
        · rw [hserver] at hs
          cases hs
        · rw [hctx.organization] at horg
          cases horg
      · rw [Store.dashboards, Store.select, hserver, horg]
        rfl

/-- The stores of a request made in an organization, without the facade. -/
theorem facade_get_eq {org : String} (hctx : InOrganization ctx org) :
    (Store.dashboards ids ctx).get ctx id =
      Bolt.DashboardsStore.get ctx id >>= fun d =>
        if d.organization ≠ org then Tx.fail .errDashboardNotFound else pure d := by
  rw [hctx.dashboards]
  show (Tx.ofExcept (validOrganization ctx) >>= _) = _
  rw [hctx.valid]
  rfl

theorem facade_update_eq {org : String} (hctx : InOrganization ctx org) :
    (Store.dashboards ids ctx).update ctx d =
      Bolt.DashboardsStore.get ctx d.id >>= fun _ => Bolt.DashboardsStore.update ids ctx d := by
  rw [hctx.dashboards]
  show (Tx.ofExcept (validOrganization ctx) >>= _) = _
  rw [hctx.valid]
  rfl

theorem stored_of_get
    (h : (match db.dashboards.get (Int.repr id) with
      | none => .error .errDashboardNotFound
      | some v => .ok (unmarshalDashboard v) : Except Error Dashboard) = .ok d) : stored db id = some d := by
  unfold stored
  cases hget : db.dashboards.get (Int.repr id) with
  | none =>
    simp only [hget] at h
    cases h
  | some v =>
    simp only [hget] at h
    exact congrArg some (Except.ok.inj h)

/-- How often a request looks at the store between reading and writing. -/
def looks (ctx : Context) : ℕ := if hasServerContext ctx then 0 else 1

/-- What the call goes on with. -/
def Proceeds (ctx : Context) (id : ℤ) (call : DashboardCall) (db : Db) : Prop :=
  ∃ d d', stored db id = some d ∧ Sees ctx d ∧ call.apply d = some d'

/-- What the call makes of the store `cur` if it has read `db`. -/
def writes (ids : ℕ → String) (id : ℤ) (call : DashboardCall) (db cur : Db) : Db :=
  match (stored db id).bind call.apply with
  | some d' => written ids cur d'
  | none => cur

variable {s : Service} {f : Dashboard → Except Response Edited} {call : DashboardCall} {param : String} {db' : Db}

/-- Writing through the store itself. -/
theorem update_commits (ids : ℕ → String) (ctx : Context) (e : Edited) :
    Tx.CommitsOrFails (fun cur => written ids cur e.dash) 0
      ((Bolt.DashboardsStore.update ids ctx e.dash).mapError e.failed >>= fun _ => pure e.answer) := by
  refine Tx.CommitsOrFails.update fun cur b cur' h => ?_
  cases hget : cur.dashboards.get (Int.repr e.dash.id) with
  | none =>
    simp only [hget] at h
    cases h
  | some v =>
    simp only [hget] at h
    obtain ⟨-, rfl⟩ := Prod.mk.inj (Except.ok.inj h)
    rfl

/-- The rest of the handler, once the dashboard was read in `db`. -/
theorem writeBack_commits (hmakes : Makes f call) (hserver : hasServerContext ctx = true ∨ ∃ org, InOrganization ctx org)
    (hd : stored db id = some d) (hsees : Sees ctx d) :
    (∃ r, writeBack s ctx (f d) = .ret (.error r)) ∨
    Proceeds ctx id call db ∧ Tx.CommitsOrFails (writes s.ids id call db) (looks ctx) (writeBack s ctx (f d)) := by
  cases hf : f d with
  | error r => exact .inl ⟨r, rfl⟩
  | ok e =>
    have happly := (hmakes d e.dash).mp ⟨e, hf, rfl⟩
    refine .inr ⟨⟨d, e.dash, hd, hsees, happly⟩, ?_⟩
    have hwrites : writes s.ids id call db = fun cur => written s.ids cur e.dash := by
      funext cur
      rw [writes, hd, Option.bind_some, happly]
    rw [hwrites]
    show Tx.CommitsOrFails _ _ (((Store.dashboards s.ids ctx).update ctx e.dash).mapError e.failed >>= fun _ =>
      pure e.answer)
    rcases hserver with hserver | ⟨org, hctx⟩
    · rw [looks, if_pos hserver, Store.dashboards, Store.select_server hserver]
      exact update_commits s.ids ctx e
    · rw [looks, hctx.server, facade_update_eq hctx, Tx.mapError_bind, Tx.bind_assoc]
      exact Tx.CommitsOrFails.view fun _ _ _ => update_commits s.ids ctx e

/-- A handler that edits reads the dashboard, and is to write what the edit makes
of it, if it does not give up. -/
theorem edit_rmw (s : Service) (ctx : Context) (h : call.Edits param) (hid : paramID param = .ok id) :
    (∃ r, call.handler s ctx = .ret (.error r)) ∨
    Tx.RmwOrFails (Proceeds ctx id call) (writes s.ids id call) (looks ctx) (call.handler s ctx) := by
  rcases handler_cases s ctx h with ⟨err, r, -, hr⟩ | ⟨id', f, hid', hf, hmakes⟩
  · exact .inl ⟨r, hr⟩
  · obtain rfl : id' = id := Except.ok.inj (hid'.symm.trans hid)
    rw [hf]
    unfold editing
    rcases store_cases s.ids ctx with ⟨hserver, hstore⟩ | ⟨org, hctx⟩ | ⟨-, hstore⟩
    · right
      rw [hstore]
      refine Tx.RmwOrFails.view fun db d hd => ?_
      exact writeBack_commits hmakes (.inl hserver) (stored_of_get hd) (.inl hserver)
    · right
      rw [facade_get_eq hctx, Tx.mapError_bind, Tx.bind_assoc]
      refine Tx.RmwOrFails.view fun db d hd => ?_
      by_cases horg : d.organization = org
      · rw [if_neg (not_not.mpr horg)]
        subst horg
        exact writeBack_commits hmakes (.inr ⟨_, hctx⟩) (stored_of_get hd) (.inr hctx)
      · rw [if_pos horg]
        exact .inl ⟨_, rfl⟩
    · left
      rw [hstore]
      exact ⟨_, rfl⟩

/-! Run alone, such a handler succeeds if the dashboard is there to be seen and
the edit can be made. -/

theorem run_get_cases (ids : ℕ → String) (ctx : Context) (id : ℤ) (db : Db) : ∃ r,
    ((Store.dashboards ids ctx).get ctx id).run db = (r, db) ∧
      ∀ d, r = .ok d ↔ stored db id = some d ∧ Sees ctx d := by
  rcases store_cases ids ctx with ⟨hserver, hstore⟩ | ⟨org, hctx⟩ | ⟨hblind, hstore⟩
  · rw [hstore]
    refine ⟨_, (Bolt.DashboardsStore.owned ids).run_get ctx id db, fun d => ?_⟩
    have hsees : Sees ctx d := .inl hserver
    cases stored db id <;> simp [hsees]
  · obtain ⟨r, hrun, hok⟩ := run_dashboards_get ids hctx id db
    refine ⟨r, hrun, fun d => (hok d).trans ?_⟩
    refine and_congr_right fun _ => ⟨fun horg => .inr (horg ▸ hctx), ?_⟩
    rintro (hserver | hsees)
    · rw [hctx.server] at hserver
      cases hserver
    · exact Option.some.inj (hsees.organization.symm.trans hctx.organization)
  · rw [hstore]
    refine ⟨_, rfl, fun d => ?_⟩
    simp [hblind d]

theorem run_update_seen (ids : ℕ → String) (hsees : Sees ctx d) (hd : stored db d'.id = some d) :
    ((Store.dashboards ids ctx).update ctx d').run db = (.ok (), written ids db d') := by
  rcases hsees with hserver | hctx
  · rw [Store.dashboards, Store.select_server hserver]
    obtain ⟨v, hv, -⟩ := Option.map_eq_some_iff.mp hd
    exact Tx.run_update_ok (by rw [hv]; rfl)
  · exact run_dashboards_update ids hctx hd

theorem run_edit_ok_iff (h : call.Edits param) (hid : paramID param = .ok id) :
    (∃ r, (call.handler s ctx).run db = (.ok r, db')) ↔
      ∃ d d', stored db id = some d ∧ Sees ctx d ∧ call.apply d = some d' ∧ db' = written s.ids db d' := by
  rcases handler_cases s ctx h with ⟨err, r, herr, -⟩ | ⟨id', f, hid', hf, hmakes⟩
  · rw [hid] at herr
    cases herr
  · obtain rfl : id' = id := Except.ok.inj (hid'.symm.trans hid)
    obtain ⟨r, hget, hok⟩ := run_get_cases s.ids ctx id' db
    have hwrite : ∀ d e, stored db id' = some d → Sees ctx d → f d = .ok e →
        (writeBack s ctx (f d)).run db = (.ok e.answer, written s.ids db e.dash) := by
      intro d e hd hsees he
      have hself : e.dash.id = id' := by
        obtain ⟨ed, -, happly⟩ := Option.bind_eq_some_iff.mp ((hmakes d e.dash).mp ⟨e, he, rfl⟩)
        rw [DashboardEdit.apply_id happly, Bolt.DashboardsStore.id_of_stored hd]
      rw [he]
      show (((Store.dashboards s.ids ctx).update ctx e.dash).mapError e.failed >>= fun _ => pure e.answer).run db = _
      rw [Tx.run_bind, Tx.run_mapError, run_update_seen s.ids hsees (hself ▸ hd)]
      rfl
    rw [hf]
    unfold editing
    rw [Tx.run_bind, Tx.run_mapError, hget]
    cases r with
    | error err =>
      constructor
      · rintro ⟨r, hr⟩
        cases (Prod.mk.inj hr).1
      · rintro ⟨d, d', hd, hsees, -, -⟩
        cases (hok d).mpr ⟨hd, hsees⟩
    | ok d =>
      obtain ⟨hd, hsees⟩ := (hok d).mp rfl
      show (∃ r, (writeBack s ctx (f d)).run db = _) ↔ _
      cases he : f d with
      | error r =>
        constructor
        · rintro ⟨r', hr'⟩
          cases (Prod.mk.inj hr').1
        · rintro ⟨d₀, d', hd₀, -, happly, -⟩
          obtain rfl : d = d₀ := Option.some.inj (hd.symm.trans hd₀)
          obtain ⟨e, he', -⟩ := (hmakes d d').mpr happly
          rw [he] at he'
          cases he'
      | ok e =>
        rw [← he, hwrite d e hd hsees he]
        constructor
        · rintro ⟨r', hr'⟩
          exact ⟨d, e.dash, hd, hsees, (hmakes d e.dash).mp ⟨e, he, rfl⟩, (Prod.mk.inj hr').2.symm⟩
        · rintro ⟨d₀, d', hd₀, -, happly, rfl⟩
          obtain rfl : d = d₀ := Option.some.inj (hd.symm.trans hd₀)
          obtain ⟨e', he', rfl⟩ := (hmakes d d').mpr happly
          obtain rfl : e = e' := Except.ok.inj (he.symm.trans he')
          exact ⟨e.answer, rfl⟩

/-- A handler that edits succeeds only with a number in its path. -/
theorem paramID_of_run_ok {r : Response} (h : call.Edits param) (hrun : (call.handler s ctx).run db = (.ok r, db')) :
    ∃ id, paramID param = .ok id := by
  rcases handler_cases s ctx h with ⟨err, r', -, hr⟩ | ⟨id, f, hid, -, -⟩
  · rw [hr] at hrun
    cases (Prod.mk.inj hrun).1
  · exact ⟨id, hid⟩

end Effects

end Server
end Chronograf
