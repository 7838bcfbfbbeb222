/-
# Dashboards stay in their organization

A request for dashboards that is made in an organization leaves the dashboards
of the other organizations alone, creates dashboards in its own and keeps
them there, unless it is a `ReplaceDashboard` whose body names another
organization, or none while the default one is another.

Key definitions: `Confined`, `DashboardMessage.run`, `SameOwners`.
Key theorems: `dashboard_request_confined_iff`, `dashboards_keep_organization`.
-/
import Chronograf.Server.DashboardEffects
import Mathlib.Data.List.Induction

namespace Chronograf
namespace Server

open Bolt.DashboardsStore (stored stored_put stored_delete id_of_stored)
open Internal (marshalDashboard)

/-- From `db` to `db'`, the dashboards of other organizations are the same, those of
`org` stay in it, and those that are new are in it. -/
structure Confined (org : String) (db db' : Db) : Prop where
  others : ∀ id d, stored db id = some d → d.organization ≠ org → stored db' id = some d
  kept : ∀ id d d', stored db id = some d → d.organization = org → stored db' id = some d' → d'.organization = org
  created : ∀ id d', stored db id = none → stored db' id = some d' → d'.organization = org

variable {s : Service} {ctx : Context} {org : String} {db db' : Db} {call : DashboardCall}

theorem same_organization {id : ℤ} {d d' : Dashboard} (hd : stored db id = some d) (hd' : stored db id = some d')
    (horg : d.organization = org) : d'.organization = org := by
  have hdd' : d = d' := Option.some.inj (hd.symm.trans hd')
  rw [← hdd']
  exact horg

namespace Confined

theorem refl (org : String) (db : Db) : Confined org db db where
  others _ _ hd _ := hd
  kept id d d' hd horg hd' := same_organization hd hd' horg
  created id d' hnone hd' := by
    rw [hnone] at hd'
    cases hd'

/-- One dashboard changes, and it is one of `org` before and after. -/
theorem of_change {k : ℤ} (hsame : ∀ id, id ≠ k → stored db' id = stored db id)
    (hbefore : ∀ d, stored db k = some d → d.organization = org)
    (hafter : ∀ d', stored db' k = some d' → d'.organization = org) : Confined org db db' where
  others id d hd hne := by
    have hid : id ≠ k := by
      rintro rfl
      exact hne (hbefore d hd)
    rw [hsame id hid]
    exact hd
  kept id d d' hd horg hd' := by
    by_cases hid : id = k
    · subst hid
      exact hafter d' hd'
    · rw [hsame id hid] at hd'
      exact same_organization hd hd' horg
  created id d' hnone hd' := by
    by_cases hid : id = k
    · subst hid
      exact hafter d' hd'
    · rw [hsame id hid, hnone] at hd'
      cases hd'

/-- A dashboard of `org` is written where there is none of another organization. -/
theorem put (b : Bucket Internal.Dashboard) (hb : ∀ id, stored { db with dashboards := b } id = stored db id)
    {d : Dashboard} (hbefore : ∀ d', stored db d.id = some d' → d'.organization = org)
    (horg : d.organization = org) : Confined org db { db with dashboards := b.put (marshalDashboard d) } := by
  refine of_change (k := d.id) (fun id hid => ?_) hbefore fun d' hd' => ?_
  · rw [stored_put, Internal.marshalDashboard_id, if_neg hid]
    exact hb id
  · rw [stored_put, Internal.marshalDashboard_id, if_pos rfl] at hd'
    rw [← Option.some.inj hd']
    exact horg

end Confined

/-- No dashboard is stored under the next number. -/
theorem stored_next (hdb : db.dashboards.Issued) : stored db (db.dashboards.seq + 1) = none := by
  have hnone : db.dashboards.get (Int.repr (db.dashboards.seq + 1)) = none :=
    hdb.get_next (Nat.lt_succ_self db.dashboards.seq)
  rw [stored, hnone]
  rfl

/-- What is not misplaced is confined. -/
theorem DashboardEffect.confined (h : DashboardEffect org db call db') (hdb : db.dashboards.Issued)
    (hcall : ¬ call.Misplaces db org) : Confined org db db' := by
  cases h with
  | nothing => exact .refl org db
  | added d hid horg =>
    refine .put db.dashboards.nextSequence (fun _ => rfl) (fun d' hd' => ?_) horg
    rw [hid, stored_next hdb] at hd'
    cases hd'
  | removed d hd horg =>
    refine .of_change (k := d.id) (fun id hid => ?_) (fun d' hd' => ?_) fun d' hd' => ?_
    · rw [stored_delete, if_neg hid]
    · exact same_organization hd hd' horg
    · rw [stored_delete, if_pos rfl] at hd'
      cases hd'
  | written d d' hd horg hid horg' =>
    refine .put db.dashboards (fun _ => rfl) (fun d'' hd'' => ?_) horg'
    rw [hid] at hd''
    exact same_organization hd hd'' horg
  | misplaced d d' hd horg hid hmis => exact absurd hmis hcall

/-- The numbers of the dashboards remain ones that the sequence gave out. -/
theorem DashboardEffect.issued (h : DashboardEffect org db call db') (hdb : db.dashboards.Issued) :
    db'.dashboards.Issued := by
  have hput : ∀ d d' : Dashboard, stored db d.id = some d → d'.id = d.id →
      (db.dashboards.put (marshalDashboard d')).Issued := by
    intro d d' hd hid
    obtain ⟨v, hv, -⟩ := Option.map_eq_some_iff.mp hd
    have hkey : key (marshalDashboard d') = Int.repr d.id := by
      rw [key_dashboard, Internal.marshalDashboard_id, hid]
    exact hdb.put_of_get (hkey ▸ hv)
  cases h with
  | nothing => exact hdb
  | added d hid horg =>
    refine hdb.put_next ?_
    rw [key_dashboard, Internal.marshalDashboard_id, hid]
    rfl
  | removed d hd horg => exact hdb.delete
  | written d d' hd horg hid horg' => exact hput d d' hd hid
  | misplaced d d' hd horg hid hmis => exact hput d d' hd hid

/-- The dashboard that was in `org` is found elsewhere. -/
theorem not_confined_of_misplaces (hctx : InOrganization ctx org) {req : Dashboard} {param : String}
    (h : Misplaces db org req (numberInPath param)) :
    ¬ Confined org db ((replaceDashboard s (some req) param).after ctx db) := by
  obtain ⟨⟨d, hd, horg⟩, hvalid, helse⟩ := h
  obtain ⟨req', hreq⟩ : ∃ req', validDashboardRequest { req with id := numberInPath param }
      (defaultOrganization db).id = .ok req' :=
    validDashboardRequest_ok_iff.mpr ⟨hvalid.cells, hvalid.templates⟩
  obtain ⟨hid, hdest⟩ := validDashboardRequest_ok hreq
  rw [replaceDashboard_after, replaceDashboardWithID_after hctx hd horg hreq]
  intro hconf
  have hmoved := hconf.kept _ d _ hd horg ((stored_put db _ _ _).trans (if_pos hid.symm))
  exact helse (hdest.symm.trans hmoved)

/-- A request made in `org` is confined to it if and only if it is no
`ReplaceDashboard` of a stored dashboard of `org` with a valid body that names
another organization, or none while the default organization is another. -/
theorem dashboard_request_confined_iff (s : Service) (org : String) (ctx : Context) (hctx : InOrganization ctx org)
    (db : Db) (hdb : db.dashboards.Issued) (call : DashboardCall) :
    Confined org db ((call.handler s).after ctx db) ↔ ¬ call.Misplaces db org := by
  constructor
  · intro hconf hmis
    cases call with
    | replaceDashboard body param =>
      cases body with
      | some req => exact not_confined_of_misplaces hctx hmis hconf
      | none => exact hmis
    | _ => exact hmis
  · exact (dashboardCall_effect s hctx db call).confined hdb

/-! ### Runs -/

/-- A request for dashboards that is made in an organization. -/
structure DashboardMessage where
  ctx : Context
  org : String
  inOrganization : InOrganization ctx org
  call : DashboardCall

namespace DashboardMessage

/-- The store after the request. -/
def after (s : Service) (db : Db) (m : DashboardMessage) : Db := (m.call.handler s).after m.ctx db

/-- The store after the requests, handled one after the other. -/
def run (s : Service) (db : Db) (ms : List DashboardMessage) : Db := ms.foldl (after s) db

end DashboardMessage

/-- From `db` to `db'` no dashboard changes hands, and the new ones have new numbers. -/
structure SameOwners (db db' : Db) : Prop where
  seq : db.dashboards.seq ≤ db'.dashboards.seq
  owner : ∀ id d', stored db' id = some d' →
    (∃ d, stored db id = some d ∧ d.organization = d'.organization) ∨ (db.dashboards.seq : ℤ) < id

namespace SameOwners

theorem refl (db : Db) : SameOwners db db := ⟨le_refl _, fun _ d' hd' => .inl ⟨d', hd', rfl⟩⟩

theorem trans {mid : Db} (h : SameOwners db mid) (h' : SameOwners mid db') : SameOwners db db' where
  seq := h.seq.trans h'.seq
  owner id d' hd' := by
    rcases h'.owner id d' hd' with ⟨d, hd, horg⟩ | hnew
    · rcases h.owner id d hd with ⟨d₀, hd₀, horg₀⟩ | hnew
      · exact .inl ⟨d₀, hd₀, horg₀.trans horg⟩
      · exact .inr hnew
    · have hseq := h.seq
      exact .inr (by omega)

end SameOwners

/-- One request that misplaces nothing. -/
theorem DashboardEffect.sameOwners (h : DashboardEffect org db call db') (hcall : ¬ call.Misplaces db org) :
    SameOwners db db' := by
  cases h with
  | nothing => exact .refl db
  | added d hid horg =>
    refine ⟨by simp, fun id d' hd' => ?_⟩
    rw [stored_put, Internal.marshalDashboard_id] at hd'
    split_ifs at hd' with hself
    · exact .inr (by omega)
    · exact .inl ⟨d', hd', rfl⟩
  | removed d hd horg =>
    refine ⟨le_refl _, fun id d' hd' => ?_⟩
    rw [stored_delete] at hd'
    split_ifs at hd' with hself
    exact .inl ⟨d', hd', rfl⟩
  | written d d' hd horg hid horg' =>
    refine ⟨by simp, fun id d'' hd'' => ?_⟩
    rw [stored_put, Internal.marshalDashboard_id] at hd''
    split_ifs at hd'' with hself
    · have hsame : stored db id = some d := by
        rw [hself, hid]
        exact hd
      have hdest : d''.organization = org := by
        rw [← Option.some.inj hd'']
        exact horg'
      exact .inl ⟨d, hsame, horg.trans hdest.symm⟩
    · exact .inl ⟨d'', hd'', rfl⟩
  | misplaced d d' hd horg hid hmis => exact absurd hmis hcall

theorem run_sameOwners (s : Service) (db : Db) (ms : List DashboardMessage)
    (h : ∀ pre m, pre ++ [m] <+: ms → ¬ m.call.Misplaces (DashboardMessage.run s db pre) m.org) :
    SameOwners db (DashboardMessage.run s db ms) := by
  induction ms using List.reverseRecOn with
  | nil => exact .refl db
  | append_singleton ms m ih =>
    have hbefore := ih fun pre m' hpre => h pre m' (hpre.trans (List.prefix_append ms [m]))
    have hlast := dashboardCall_effect s m.inOrganization (DashboardMessage.run s db ms) m.call
    have hstep := hlast.sameOwners (h ms m (List.prefix_refl _))
    have hrun : DashboardMessage.run s db (ms ++ [m]) = m.after s (DashboardMessage.run s db ms) :=
      List.foldl_append
    rw [hrun]
    exact hbefore.trans hstep

/-- While no request misplaces a dashboard, whatever requests are made in
whatever organizations, a dashboard that is still there is in the organization
it was in. -/
theorem dashboards_keep_organization (s : Service) (db : Db) (hdb : db.dashboards.Issued)
    (ms : List DashboardMessage)
    (h : ∀ pre m, pre ++ [m] <+: ms → ¬ m.call.Misplaces (DashboardMessage.run s db pre) m.org) {id : ℤ}
    {d d' : Dashboard} (hd : stored db id = some d) (hd' : stored (DashboardMessage.run s db ms) id = some d') :
    d'.organization = d.organization := by
  rcases (run_sameOwners s db ms h).owner id d' hd' with ⟨d₀, hd₀, horg⟩ | hnew
  · rw [← horg]
    exact same_organization hd hd₀ rfl
  · obtain ⟨n, rfl⟩ := Int.eq_ofNat_of_zero_le (by omega : 0 ≤ id)
    have hnone : db.dashboards.get (Int.repr n) = none := hdb.get_next (by omega)
    rw [stored, hnone] at hd
    cases hd

/-! ### A dashboard that moves -/

/-- An empty dashboard of organization 1, whose ID is 1. -/
def exampleDashboard : Dashboard := ⟨1, [], [], "hosts", "1"⟩

/-- A new database with that dashboard. -/
def exampleDashboardDb : Db :=
  { Db.opened with dashboards := Bucket.empty.nextSequence.put (marshalDashboard exampleDashboard) }

theorem exampleDashboardDb_issued : exampleDashboardDb.dashboards.Issued := Bucket.Issued.empty.put_next rfl

theorem exampleDashboard_stored : stored exampleDashboardDb 1 = some exampleDashboard := by decide

/-- Giving the dashboard another name leaves it where it is. -/
theorem dashboard_request_confined_iff_example :
    Confined "1" exampleDashboardDb
      (((DashboardCall.updateDashboard (some ⟨0, [], [], "servers", ""⟩) "1").handler exampleService).after
        { organization := some "1", user := some exampleEditor } exampleDashboardDb) :=
  (dashboard_request_confined_iff exampleService "1" { organization := some "1", user := some exampleEditor }
    ⟨rfl, rfl⟩ exampleDashboardDb exampleDashboardDb_issued
    (.updateDashboard (some ⟨0, [], [], "servers", ""⟩) "1")).mpr fun h => h

/-- Replacing the dashboard by one that names no organization moves it to the
default organization. -/
theorem dashboard_moved_to_default :
    ¬ Confined "1" exampleDashboardDb
      (((DashboardCall.replaceDashboard (some ⟨1, [], [], "servers", ""⟩) "1").handler exampleService).after
        { organization := some "1", user := some exampleEditor } exampleDashboardDb) := by
  have hmis : Misplaces exampleDashboardDb "1" ⟨1, [], [], "servers", ""⟩ (numberInPath "1") := by
    refine ⟨⟨exampleDashboard, exampleDashboard_stored, rfl⟩, ⟨by simp, by simp⟩, ?_⟩
    decide
  exact not_confined_of_misplaces ⟨rfl, rfl⟩ hmis

end Server
end Chronograf
