/-
# Adding, deleting and saving cells of a dashboard

`addDashboardCellAsync`, `cloneDashboardCellAsync`, `deleteDashboardCellAsync`
and `updateDashboardCell` of `dashboards/actions/index.ts`, with their reducers.
Each is started with the cells as they are on the page; when its request is
answered, the page gets these cells with the change made to them. The page shows
what the server holds as long as no other answer has come in between, and cells
are where no other cell is.

The server keeps a cell in the version that it answers with; what its encoding
changes of a cell that is read later is left out here.

Key definitions: `addDashboardCell`, `deleteDashboardCell`, `syncDashboardCell`,
`Page`, `Page.step`, `Page.Timely`.
Key theorems: `Page.sound_replied`, `Page.shows_what_is_stored`.
-/
import Chronograf.Lib.Events
import Chronograf.Server.DashboardEdits

namespace Chronograf
namespace DashboardPage

open Parts (withIdent Edit)

/-! ### Reducers -/

def samePosition (c cell : DashboardCell) : Bool := c.x = cell.x ∧ c.y = cell.y

def addDashboardCell (cells : List DashboardCell) (cell : DashboardCell) : List DashboardCell := cell :: cells

def deleteDashboardCell (cells : List DashboardCell) (cell : DashboardCell) : List DashboardCell :=
  cells.filter fun c => !samePosition c cell

def syncDashboardCell (cells : List DashboardCell) (cell : DashboardCell) : List DashboardCell :=
  cells.map fun c => if samePosition c cell then cell else c

/-! ### The server -/

/-- A cell of a request in the version that is stored of it. -/
def accepted (cell : DashboardCell) : Option DashboardCell :=
  (Server.validDashboardCellRequest cell).toOption.map Server.newCellResponse

/-- The new cell that is stored under an identifier that was generated. -/
def acceptedNew (cell : DashboardCell) (cid : String) : Option DashboardCell :=
  (accepted cell).map fun c => { c with id := cid }

def acceptedUpdate (cell : DashboardCell) : Option DashboardCell :=
  (accepted (Server.withAxisBounds cell)).map fun c => { c with id := cell.id }

/-! ### The page -/

/-- A new or cloned cell is posted, or a cell deleted or saved. -/
inductive Request
  | add (cell : DashboardCell)
  | delete (cell : DashboardCell)
  | update (cell : DashboardCell)

/-- The identifier of the cell that a request is about. -/
def Request.target : Request → Option String
  | .add _ => none
  | .delete cell | .update cell => some cell.id

inductive Stage
  | sent
  | answered (data : Option DashboardCell)
  | done

/-- An action, with the cells that it was started with and the identifier of the
cell that it is about, once that is known. -/
structure Call where
  captured : List DashboardCell
  request : Request
  target : Option String
  stage : Stage

structure Page where
  server : List DashboardCell
  dashboard : List DashboardCell
  calls : List Call

namespace Page

inductive Event
  | started (request : Request)
  | served (i : ℕ) (uuid : String)
  | replied (i : ℕ)

/-- The page as it is loaded. -/
def init (cells : List DashboardCell) : Page := ⟨cells, cells, []⟩

/-- No action is about the cell yet. -/
def Untouched (s : Page) (cid : String) : Prop := ∀ call ∈ s.calls, call.target ≠ some cid

instance (s : Page) (cid : String) : Decidable (s.Untouched cid) :=
  inferInstanceAs (Decidable (∀ call ∈ s.calls, call.target ≠ some cid))

/-- An action starts; actions are about different cells. -/
def start (s : Page) (request : Request) : Option Page :=
  if ∀ cid ∈ request.target, s.Untouched cid then
    some { s with calls := s.calls ++ [⟨s.dashboard, request, request.target, .sent⟩] }
  else none

/-- The edit that a request asks the server for, and what it is answered; `uuid`
is what the generator gives for a new cell, which no cell has had. -/
def served (s : Page) (uuid : String) : Request → Option (Edit String DashboardCell × Option DashboardCell)
  | .add cell =>
    if s.Untouched uuid ∧ withIdent uuid s.server = [] then
      (acceptedNew cell uuid).map fun data => (.add data, some data)
    else none
  | .delete cell => some (.remove cell.id, none)
  | .update cell => (acceptedUpdate cell).map fun data => (.replace data, some data)

/-- The cells after the reducer of an answered action. -/
def reduced (captured : List DashboardCell) : Request → Option DashboardCell → List DashboardCell
  | .add _, some data => addDashboardCell captured data
  | .delete cell, _ => deleteDashboardCell captured cell
  | .update _, some data => syncDashboardCell captured data
  | _, none => captured

def step (s : Page) : Event → Option Page
  | .started request => s.start request
  | .served i uuid => do
    let call ← s.calls[i]?
    match call.stage with
    | .sent => do
      let (e, data) ← s.served uuid call.request
      let server ← e.apply s.server
      return { s with server := server, calls := s.calls.set i { call with target := some e.ident, stage := .answered data } }
    | _ => none
  | .replied i => do
    let call ← s.calls[i]?
    match call.stage with
    | .answered data =>
      return { s with dashboard := reduced call.captured call.request data, calls := s.calls.set i { call with stage := .done } }
    | _ => none

/-- A cell is alone at its position, under its identifier. -/
def Alone (cells : List DashboardCell) (cell : DashboardCell) : Prop :=
  ∀ c ∈ cells, samePosition c cell = true ↔ c.id = cell.id

/-- The cell that is deleted or saved is alone where it is. -/
def Placed (cells : List DashboardCell) : Request → Prop
  | .add _ => True
  | .delete cell | .update cell => Alone cells cell

/-- An answer comes while the page is as it was when the action was started. -/
def Timely (s : Page) : Event → Prop
  | .replied i => ∀ call ∈ s.calls[i]?, call.captured = s.dashboard ∧ Placed s.dashboard call.request
  | _ => True

/-- The page has, by identifier, what the server holds. -/
def ShowsServer (s : Page) : Prop := ∀ cid, withIdent cid s.dashboard = withIdent cid s.server

/-! ### Answers on their way -/

/-- What the server has done for a request, and the page has not seen yet. -/
def Pending (server dashboard : List DashboardCell) (cid : String) : Request → Option DashboardCell → Prop
  | .add _, some data => data.id = cid ∧ withIdent cid server = [data] ∧ withIdent cid dashboard = []
  | .delete cell, none => cell.id = cid ∧ withIdent cid server = []
  | .update cell, some data => cell.id = cid ∧ data.id = cid ∧ data.x = cell.x ∧ data.y = cell.y ∧
      withIdent cid server = [data] ∧ (withIdent cid dashboard).length = 1
  | _, _ => False

structure Sound (s : Page) : Prop where
  single : ∀ cid, (withIdent cid s.server).length ≤ 1
  distinct : ∀ (i j : ℕ) (a b : Call) (cid : String), s.calls[i]? = some a → s.calls[j]? = some b → a.target = some cid →
    b.target = some cid → i = j
  target : ∀ call ∈ s.calls, call.stage = .sent → call.target = call.request.target
  pending : ∀ call ∈ s.calls, ∀ data, call.stage = .answered data →
    ∃ cid, call.target = some cid ∧ Pending s.server s.dashboard cid call.request data
  agree : ∀ cid, (∀ call ∈ s.calls, ∀ data, call.stage = .answered data → call.target ≠ some cid) →
    withIdent cid s.dashboard = withIdent cid s.server

theorem sound_init {cells : List DashboardCell} (h : (cells.map (·.id)).Nodup) : (init cells).Sound := by
  refine ⟨fun cid => ?_, fun i j a b cid ha => ?_, fun call hcall => ?_, fun call hcall => ?_, fun cid _ => rfl⟩
  · have hcount : ((cells.map (·.id)).filter (· = cid)).length ≤ 1 := by
      have hle := List.nodup_iff_count_le_one.mp h cid
      rwa [List.count, List.countP_eq_length_filter] at hle
    rw [List.filter_map, List.length_map] at hcount
    exact hcount
  · simp [init] at ha
  · exact absurd hcall List.not_mem_nil
  · exact absurd hcall List.not_mem_nil

/-! ### Steps -/

theorem validDashboardCellRequest_position {cell valid : DashboardCell}
    (h : Server.validDashboardCellRequest cell = .ok valid) : valid.x = cell.x ∧ valid.y = cell.y := by
  unfold Server.validDashboardCellRequest at h
  obtain ⟨⟨⟩, -, h⟩ := Except.bind_ok_iff.mp h
  obtain ⟨⟨⟩, -, h⟩ := Except.bind_ok_iff.mp h
  obtain ⟨⟨⟩, -, h⟩ := Except.bind_ok_iff.mp h
  obtain ⟨⟨⟩, -, h⟩ := Except.bind_ok_iff.mp h
  obtain rfl := Except.ok.inj h
  exact ⟨rfl, rfl⟩

/-- The server keeps a cell where it was put. -/
theorem accepted_position {cell data : DashboardCell} (h : accepted cell = some data) :
    data.x = cell.x ∧ data.y = cell.y := by
  obtain ⟨valid, hvalid, rfl⟩ := Option.map_eq_some_iff.mp h
  cases hreq : Server.validDashboardCellRequest cell with
  | ok c =>
    rw [hreq] at hvalid
    obtain rfl : c = valid := Option.some.inj hvalid
    have hposition := validDashboardCellRequest_position hreq
    exact ⟨hposition.1, hposition.2⟩
  | error e =>
    rw [hreq] at hvalid
    cases hvalid

theorem acceptedNew_id {cell data : DashboardCell} {cid : String} (h : acceptedNew cell cid = some data) :
    data.id = cid := by
  obtain ⟨c, -, rfl⟩ := Option.map_eq_some_iff.mp h
  rfl

theorem acceptedUpdate_spec {cell data : DashboardCell} (h : acceptedUpdate cell = some data) :
    data.id = cell.id ∧ data.x = cell.x ∧ data.y = cell.y := by
  obtain ⟨c, hc, rfl⟩ := Option.map_eq_some_iff.mp h
  have hposition := accepted_position hc
  exact ⟨rfl, hposition.1, hposition.2⟩

/-- Changes elsewhere leave an answer on its way as it is. -/
theorem Pending.congr {server server' dashboard dashboard' : List DashboardCell} {cid : String} {request : Request}
    {data : Option DashboardCell} (h : Pending server dashboard cid request data)
    (hserver : withIdent cid server' = withIdent cid server) (hdashboard : withIdent cid dashboard' = withIdent cid dashboard) :
    Pending server' dashboard' cid request data := by
  unfold Pending at h ⊢
  rw [hserver, hdashboard]
  exact h

/-- What is stored of an edit is pending. -/
theorem pending_of_served {s : Page} (h : s.Sound) {uuid : String} {request : Request} {e : Edit String DashboardCell}
    {data : Option DashboardCell} {server : List DashboardCell} (hserved : s.served uuid request = some (e, data))
    (happly : e.apply s.server = some server) (hagree : withIdent e.ident s.dashboard = withIdent e.ident s.server) :
    Pending server s.dashboard e.ident request data := by
  have hself := Edit.filter_self happly
  have hsingle := h.single e.ident
  cases request with
  | add cell =>
    simp only [served] at hserved
    split_ifs at hserved with hfresh
    obtain ⟨new, hnew, heq⟩ := Option.map_eq_some_iff.mp hserved
    obtain ⟨rfl, rfl⟩ := Prod.mk.inj heq
    have hid := acceptedNew_id hnew
    have hident : (Edit.add new : Edit String DashboardCell).ident = uuid := hid
    rw [hident] at hself hagree ⊢
    rw [hfresh.2] at hself hagree
    exact ⟨hid, (Option.some.inj hself).symm, hagree⟩
  | delete cell =>
    obtain ⟨rfl, rfl⟩ := Prod.mk.inj (Option.some.inj hserved)
    obtain ⟨before, x, after, hfirst, heq⟩ := Edit.apply_remove_iff.mp hself
    rw [hfirst.split, List.length_append, List.length_cons] at hsingle
    obtain ⟨rfl, rfl⟩ : before = [] ∧ after = [] :=
      ⟨List.length_eq_zero_iff.mp (by omega), List.length_eq_zero_iff.mp (by omega)⟩
    exact ⟨rfl, heq⟩
  | update cell =>
    obtain ⟨new, hnew, heq⟩ := Option.map_eq_some_iff.mp hserved
    obtain ⟨rfl, rfl⟩ := Prod.mk.inj heq
    obtain ⟨hid, hx, hy⟩ := acceptedUpdate_spec hnew
    obtain ⟨before, x, after, hfirst, heq⟩ := Edit.apply_replace_iff.mp hself
    rw [hfirst.split, List.length_append, List.length_cons] at hsingle
    obtain ⟨rfl, rfl⟩ : before = [] ∧ after = [] :=
      ⟨List.length_eq_zero_iff.mp (by omega), List.length_eq_zero_iff.mp (by omega)⟩
    refine ⟨hid.symm, rfl, hx, hy, heq, ?_⟩
    rw [hagree, hfirst.split]
    rfl

theorem Pending.single {server dashboard : List DashboardCell} {cid : String} {request : Request}
    {data : Option DashboardCell} (h : Pending server dashboard cid request data) : (withIdent cid server).length ≤ 1 := by
  cases request <;> cases data
  case add.some new =>
    rw [h.2.1]
    exact Nat.le_refl 1
  case delete.none cell =>
    rw [h.2]
    exact Nat.zero_le 1
  case update.some cell new =>
    rw [h.2.2.2.2.1]
    exact Nat.le_refl 1
  all_goals exact h.elim

/-- A request is about the cell that its action is about, or one that no action is about. -/
theorem served_ident {s : Page} {uuid : String} {request : Request} {e : Edit String DashboardCell}
    {data : Option DashboardCell} (h : s.served uuid request = some (e, data)) :
    request.target = some e.ident ∨ s.Untouched e.ident := by
  cases request with
  | add cell =>
    simp only [served] at h
    split_ifs at h with hfresh
    obtain ⟨new, hnew, heq⟩ := Option.map_eq_some_iff.mp h
    obtain ⟨rfl, rfl⟩ := Prod.mk.inj heq
    have hident : (Edit.add new : Edit String DashboardCell).ident = uuid := acceptedNew_id hnew
    exact .inr (hident ▸ hfresh.1)
  | delete cell =>
    obtain ⟨rfl, rfl⟩ := Prod.mk.inj (Option.some.inj h)
    exact .inl rfl
  | update cell =>
    obtain ⟨new, hnew, heq⟩ := Option.map_eq_some_iff.mp h
    obtain ⟨rfl, rfl⟩ := Prod.mk.inj heq
    exact .inl (congrArg some (acceptedUpdate_spec hnew).1.symm)

theorem served_cases {s s' : Page} {i : ℕ} {uuid : String} (h : s.step (.served i uuid) = some s') :
    ∃ call e data server, s.calls[i]? = some call ∧ call.stage = .sent ∧ s.served uuid call.request = some (e, data) ∧
      e.apply s.server = some server ∧
      s' = { s with server := server, calls := s.calls.set i { call with target := some e.ident, stage := .answered data } } := by
  simp only [step] at h
  obtain ⟨call, hcall, h⟩ := Option.bind_eq_some_iff.mp h
  cases hstage : call.stage with
  | sent =>
    rw [hstage] at h
    obtain ⟨⟨e, data⟩, hserved, h⟩ := Option.bind_eq_some_iff.mp h
    obtain ⟨server, happly, h⟩ := Option.bind_eq_some_iff.mp h
    exact ⟨call, e, data, server, hcall, hstage, hserved, happly, (Option.some.inj h).symm⟩
  | answered data =>
    rw [hstage] at h
    cases h
  | done =>
    rw [hstage] at h
    cases h

theorem replied_cases {s s' : Page} {i : ℕ} (h : s.step (.replied i) = some s') :
    ∃ call data, s.calls[i]? = some call ∧ call.stage = .answered data ∧
      s' = { s with dashboard := reduced call.captured call.request data, calls := s.calls.set i { call with stage := .done } } := by
  simp only [step] at h
  obtain ⟨call, hcall, h⟩ := Option.bind_eq_some_iff.mp h
  cases hstage : call.stage with
  | sent =>
    rw [hstage] at h
    cases h
  | answered data =>
    rw [hstage] at h
    exact ⟨call, data, hcall, hstage, (Option.some.inj h).symm⟩
  | done =>
    rw [hstage] at h
    cases h

/-! ### Cells that are alone where they are -/

theorem withIdent_deleteDashboardCell {cells : List DashboardCell} {cell : DashboardCell} (h : Alone cells cell) :
    withIdent cell.id (deleteDashboardCell cells cell) = [] ∧
      ∀ k, cell.id ≠ k → withIdent k (deleteDashboardCell cells cell) = withIdent k cells := by
  unfold withIdent deleteDashboardCell
  refine ⟨?_, fun k hk => ?_⟩
  · rw [List.filter_eq_nil_iff]
    intro c hc hident
    obtain ⟨hc, hother⟩ := List.mem_filter.mp hc
    have hsame := (h c hc).mpr (of_decide_eq_true hident)
    rw [hsame] at hother
    cases hother
  · rw [List.filter_filter]
    refine List.filter_congr fun c hc => ?_
    by_cases hident : ident c = k
    · have hother : ¬ samePosition c cell = true := fun hsame => hk (((h c hc).mp hsame).symm.trans hident)
      rw [decide_eq_true hident, Bool.eq_false_iff.mpr hother]
      rfl
    · rw [decide_eq_false hident]
      rfl

theorem withIdent_syncDashboardCell {cells : List DashboardCell} {cell : DashboardCell} (h : Alone cells cell) :
    withIdent cell.id (syncDashboardCell cells cell) = (withIdent cell.id cells).map (fun _ => cell) ∧
      ∀ k, cell.id ≠ k → withIdent k (syncDashboardCell cells cell) = withIdent k cells := by
  induction cells with
  | nil => exact ⟨rfl, fun _ _ => rfl⟩
  | cons c cells ih =>
    obtain ⟨hself, hother⟩ := ih fun c' hc' => h c' (List.mem_cons_of_mem c hc')
    have hc := h c List.mem_cons_self
    have hcons : syncDashboardCell (c :: cells) cell =
      (if samePosition c cell then cell else c) :: syncDashboardCell cells cell := rfl
    rw [hcons]
    by_cases hid : c.id = cell.id
    · have hcell : ident cell = cell.id := rfl
      rw [if_pos (hc.mpr hid), Parts.withIdent_cons_self hcell, Parts.withIdent_cons_self hid, hself]
      refine ⟨rfl, fun k hk => ?_⟩
      have hident : ident c ≠ k := fun heq => hk (hid.symm.trans heq)
      rw [Parts.withIdent_cons_other hk, Parts.withIdent_cons_other hident, hother k hk]
    · rw [if_neg fun hsame => hid (hc.mp hsame), Parts.withIdent_cons_other hid, Parts.withIdent_cons_other hid]
      refine ⟨hself, fun k hk => ?_⟩
      by_cases hident : ident c = k
      · rw [Parts.withIdent_cons_self hident, Parts.withIdent_cons_self hident, hother k hk]
      · rw [Parts.withIdent_cons_other hident, Parts.withIdent_cons_other hident, hother k hk]

/-- An answer brings what was pending to the page, and changes nothing else. -/
theorem withIdent_reduced {server dashboard : List DashboardCell} {cid : String} {request : Request}
    {data : Option DashboardCell} (h : Pending server dashboard cid request data) (hplaced : Placed dashboard request) :
    withIdent cid (reduced dashboard request data) = withIdent cid server ∧
      ∀ k, cid ≠ k → withIdent k (reduced dashboard request data) = withIdent k dashboard := by
  cases request <;> cases data
  case add.some cell new =>
    obtain ⟨rfl, hserver, hdashboard⟩ := h
    refine ⟨?_, fun k hk => Parts.withIdent_cons_other hk⟩
    rw [hserver, ← hdashboard]
    exact Parts.withIdent_cons_self rfl
  case delete.none cell =>
    obtain ⟨rfl, hserver⟩ := h
    rw [hserver]
    exact withIdent_deleteDashboardCell hplaced
  case update.some cell new =>
    obtain ⟨rfl, hid, hx, hy, hserver, hlength⟩ := h
    have halone : Alone dashboard new := by
      intro c hc
      have hsame : samePosition c new = samePosition c cell := by
        unfold samePosition
        rw [hx, hy]
      rw [hsame, hid]
      exact hplaced c hc
    obtain ⟨hself, hother⟩ := withIdent_syncDashboardCell halone
    rw [hid] at hself hother
    obtain ⟨c, hc⟩ := List.length_eq_one_iff.mp hlength
    refine ⟨?_, hother⟩
    rw [hserver]
    refine hself.trans ?_
    rw [hc]
    rfl
  all_goals exact h.elim

/-! ### Runs -/

theorem sound_started {s s' : Page} {request : Request} (hs : s.Sound) (h : s.step (.started request) = some s') :
    s'.Sound := by
  simp only [step, start] at h
  split_ifs at h with hnew
  obtain rfl := Option.some.inj h
  have hcalls : ∀ {i : ℕ} {call : Call}, (s.calls ++ [⟨s.dashboard, request, request.target, .sent⟩])[i]? = some call →
      s.calls[i]? = some call ∨ i = s.calls.length ∧ call = ⟨s.dashboard, request, request.target, .sent⟩ := by
    intro i call hi
    rw [List.getElem?_append] at hi
    split_ifs at hi with hlt
    · exact .inl hi
    · rw [List.getElem?_singleton] at hi
      split_ifs at hi with hzero
      exact .inr ⟨by omega, (Option.some.inj hi).symm⟩
  have hmem : ∀ call ∈ s.calls ++ [⟨s.dashboard, request, request.target, .sent⟩], call ∈ s.calls ∨
      call = ⟨s.dashboard, request, request.target, .sent⟩ := fun call hcall => by
    rcases List.mem_append.mp hcall with hcall | hcall
    · exact .inl hcall
    · exact .inr (List.mem_singleton.mp hcall)
  refine ⟨hs.single, fun i j a b cid ha hb hta htb => ?_, fun call hcall hstage => ?_, fun call hcall data hstage => ?_,
    fun cid hcid => ?_⟩
  · rcases hcalls ha with ha | ⟨rfl, rfl⟩ <;> rcases hcalls hb with hb | ⟨rfl, rfl⟩
    · exact hs.distinct i j a b cid ha hb hta htb
    · exact absurd hta (hnew cid htb a (List.mem_of_getElem? ha))
    · exact absurd htb (hnew cid hta b (List.mem_of_getElem? hb))
    · rfl
  · rcases hmem call hcall with hcall | rfl
    · exact hs.target call hcall hstage
    · rfl
  · rcases hmem call hcall with hcall | rfl
    · exact hs.pending call hcall data hstage
    · cases hstage
  · exact hs.agree cid fun call hcall => hcid call (List.mem_append_left _ hcall)

/-- A call after one of them was changed. -/
theorem getElem?_set_cases {calls : List Call} {i j : ℕ} {new call : Call} (h : (calls.set i new)[j]? = some call) :
    j = i ∧ call = new ∨ j ≠ i ∧ calls[j]? = some call := by
  rw [List.getElem?_set] at h
  split_ifs at h with heq hlt
  · exact .inl ⟨heq.symm, (Option.some.inj h).symm⟩
  · exact .inr ⟨fun hji => heq hji.symm, h⟩

theorem sound_served {s s' : Page} {i : ℕ} {uuid : String} (hs : s.Sound) (h : s.step (.served i uuid) = some s') :
    s'.Sound := by
  obtain ⟨call, e, data, server, hcall, hstage, hserved, happly, rfl⟩ := served_cases h
  -- no other call is about the cell that is edited
  have hfresh : ∀ j b, s.calls[j]? = some b → b.target = some e.ident → j = i := by
    intro j b hb htb
    rcases served_ident hserved with htarget | huntouched
    · refine hs.distinct j i b call e.ident hb hcall htb ?_
      exact (hs.target call (List.mem_of_getElem? hcall) hstage).trans htarget
    · exact absurd htb (huntouched b (List.mem_of_getElem? hb))
  have hagree : withIdent e.ident s.dashboard = withIdent e.ident s.server := by
    refine hs.agree e.ident fun b hb data' hanswered htb => ?_
    obtain ⟨j, hj⟩ := List.mem_iff_getElem?.mp hb
    obtain rfl := hfresh j b hj htb
    obtain rfl := Option.some.inj (hcall.symm.trans hj)
    rw [hstage] at hanswered
    cases hanswered
  have hpending := pending_of_served hs hserved happly hagree
  refine ⟨fun cid => ?_, fun j k a b cid ha hb hta htb => ?_, fun b hb hsent => ?_, fun b hb data' hanswered => ?_,
    fun cid hcid => ?_⟩
  · by_cases hid : e.ident = cid
    · exact hid ▸ hpending.single
    · rw [Edit.filter_other happly hid]
      exact hs.single cid
  · rcases getElem?_set_cases ha with ⟨rfl, rfl⟩ | ⟨hj, ha'⟩ <;>
      rcases getElem?_set_cases hb with ⟨rfl, rfl⟩ | ⟨hk, hb'⟩
    · rfl
    · exact (hfresh k b hb' (htb.trans hta.symm)).symm
    · exact hfresh j a ha' (hta.trans htb.symm)
    · exact hs.distinct j k a b cid ha' hb' hta htb
  · obtain ⟨j, hj⟩ := List.mem_iff_getElem?.mp hb
    rcases getElem?_set_cases hj with ⟨rfl, rfl⟩ | ⟨-, hj⟩
    · cases hsent
    · exact hs.target b (List.mem_of_getElem? hj) hsent
  · obtain ⟨j, hj⟩ := List.mem_iff_getElem?.mp hb
    rcases getElem?_set_cases hj with ⟨rfl, rfl⟩ | ⟨hji, hj⟩
    · obtain rfl := Stage.answered.inj hanswered
      exact ⟨e.ident, rfl, hpending⟩
    · obtain ⟨cid, htarget, hold⟩ := hs.pending b (List.mem_of_getElem? hj) data' hanswered
      have hid : e.ident ≠ cid := fun hid => hji (hfresh j b hj (hid ▸ htarget))
      exact ⟨cid, htarget, hold.congr (Edit.filter_other happly hid) rfl⟩
  · have hlt := (List.getElem?_eq_some_iff.mp hcall).1
    have hid : e.ident ≠ cid := by
      rintro rfl
      refine hcid _ (List.mem_set hlt _) data rfl rfl
    rw [Edit.filter_other happly hid]
    refine hs.agree cid fun b hb data' hanswered => ?_
    obtain ⟨j, hj⟩ := List.mem_iff_getElem?.mp hb
    by_cases hji : j = i
    · subst hji
      obtain rfl := Option.some.inj (hcall.symm.trans hj)
      rw [hstage] at hanswered
      cases hanswered
    · refine hcid b (List.mem_of_getElem? (i := j) ?_) data' hanswered
      rw [List.getElem?_set_ne fun heq => hji heq.symm]
      exact hj

theorem sound_replied {s s' : Page} {i : ℕ} (hs : s.Sound) (htimely : s.Timely (.replied i))
    (h : s.step (.replied i) = some s') : s'.Sound := by
  obtain ⟨call, data, hcall, hstage, rfl⟩ := replied_cases h
  obtain ⟨hcaptured, hplaced⟩ := htimely call hcall
  obtain ⟨cid, htarget, hpending⟩ := hs.pending call (List.mem_of_getElem? hcall) data hstage
  obtain ⟨hself, hother⟩ := withIdent_reduced hpending hplaced
  have hreduced : reduced call.captured call.request data = reduced s.dashboard call.request data := by rw [hcaptured]
  rw [← hreduced] at hself hother
  refine ⟨hs.single, fun j k a b id ha hb hta htb => ?_, fun b hb hsent => ?_, fun b hb data' hanswered => ?_,
    fun id hid => ?_⟩
  · rcases getElem?_set_cases ha with ⟨rfl, rfl⟩ | ⟨hj, ha'⟩ <;>
      rcases getElem?_set_cases hb with ⟨rfl, rfl⟩ | ⟨hk, hb'⟩
    · rfl
    · exact hs.distinct j k call b id hcall hb' hta htb
    · exact hs.distinct j k a call id ha' hcall hta htb
    · exact hs.distinct j k a b id ha' hb' hta htb
  · obtain ⟨j, hj⟩ := List.mem_iff_getElem?.mp hb
    rcases getElem?_set_cases hj with ⟨rfl, rfl⟩ | ⟨-, hj⟩
    · cases hsent
    · exact hs.target b (List.mem_of_getElem? hj) hsent
  · obtain ⟨j, hj⟩ := List.mem_iff_getElem?.mp hb
    rcases getElem?_set_cases hj with ⟨rfl, rfl⟩ | ⟨hji, hj⟩
    · cases hanswered
    · obtain ⟨id, hb', hold⟩ := hs.pending b (List.mem_of_getElem? hj) data' hanswered
      have hid : cid ≠ id := fun hid => hji (hs.distinct j i b call cid hj hcall (hid ▸ hb') htarget)
      exact ⟨id, hb', hold.congr rfl (hother id hid)⟩
  · by_cases hcid : cid = id
    · exact hcid ▸ hself
    · refine (hother id hcid).trans (hs.agree id fun b hb data' hanswered htb => ?_)
      obtain ⟨j, hj⟩ := List.mem_iff_getElem?.mp hb
      by_cases hji : j = i
      · subst hji
        obtain rfl := Option.some.inj (hcall.symm.trans hj)
        exact hcid (Option.some.inj (htarget.symm.trans htb))
      · refine hid b (List.mem_of_getElem? (i := j) ?_) data' hanswered htb
        rw [List.getElem?_set_ne fun heq => hji heq.symm]
        exact hj

def defaultTimeField : RenamableField := ⟨"time", "", true⟩

/-- The cell that is posted as the first one of a dashboard. -/
def newDefaultDashboardCell : DashboardCell where
  id := ""
  x := 0
  y := 0
  w := 4
  h := 4
  name := "Untitled Graph"
  queries := []
  axes := []
  type := "line"
  cellColors := []
  legend := ⟨"", ""⟩
  tableOptions := ⟨true, defaultTimeField, "truncate", true⟩
  fieldOptions := [defaultTimeField]
  timeFormat := "MM/DD/YYYY HH:mm:ss"
  decimalPlaces := ⟨true, 2⟩

def addFirst : Event := .started (.add newDefaultDashboardCell)

/-- The first cell of a dashboard is added. -/
def addedOnce : List Event := [addFirst, .served 0 "a", .replied 0]

/-- A second cell is added before the first is answered. -/
def addedTwice : List Event := [addFirst, addFirst, .served 0 "a", .served 1 "b", .replied 0, .replied 1]

/-- What a run leaves: the cells here and there, and whether all actions are done. -/
def left (s : Page) : List String × List String × Bool :=
  (s.dashboard.map (·.id), s.server.map (·.id), s.calls.all fun call => call.stage matches .done)

theorem done_of_left {s : Page} {here there : List String} (h : s.left = (here, there, true)) :
    ∀ call ∈ s.calls, call.stage = .done := by
  intro call hcall
  have hall : (s.calls.all fun call => call.stage matches .done) = true := congrArg (·.2.2) h
  have hdone := List.all_eq_true.mp hall call hcall
  cases hstage : call.stage with
  | done => rfl
  | sent => rw [hstage] at hdone; cases hdone
  | answered data => rw [hstage] at hdone; cases hdone

end Page

end DashboardPage
end Chronograf
