/-
# What a dashboard request can do to the store

A request made in an organization reads a dashboard of the organization and
writes at most one. `DashboardEffect` lists what can come of it. What is
written belongs to the organization, but for `ReplaceDashboard`: there the
body of the request says where the dashboard belongs (`Misplaces`).

Key definitions: `Misplaces`, `DashboardCall.Misplaces`, `DashboardEffect`.
Key theorems: `dashboardCall_effect`, `replaceDashboard_after`.
-/
import Chronograf.Organizations.Isolation
import Chronograf.Server.Authorization
import Chronograf.Server.Dashboards
import Chronograf.Server.Reads
import Chronograf.Server.UserEffects

namespace Chronograf
namespace Server

open Bolt.DashboardsStore (stored withCellIDs)
open Internal (marshalDashboard)

/-! ### The stores of a request -/

section Stores

variable {ids : ℕ → String} {ctx : Context} {org : String} {db : Db} {id : ℤ} {d d' : Dashboard}

theorem InOrganization.valid (hctx : InOrganization ctx org) : validOrganization ctx = .ok () :=
  validOrganization_of_has hctx.organization

theorem InOrganization.dashboards (hctx : InOrganization ctx org) :
    Store.dashboards ids ctx = Organizations.newResourcesStore (Bolt.dashboardsStore ids) org :=
  Store.dashboards_organization hctx.server hctx.organization

/-- Whether or not its user is a super admin, the request sees the default organization. -/
theorem run_organizations_default (hctx : InOrganization ctx org) :
    ((Store.organizations ids ctx).defaultOrganization ctx).run db = (.ok (defaultOrganization db), db) := by
  unfold Store.organizations
  rw [hctx.server, hctx.organization]
  cases hasSuperAdminContext ctx with
  | true => rfl
  | false => exact Tx.run_bind_ok (congrArg (Prod.mk · db) hctx.valid)

theorem run_dashboards_get (ids : ℕ → String) (hctx : InOrganization ctx org) (id : ℤ) (db : Db) : ∃ r,
    ((Store.dashboards ids ctx).get ctx id).run db = (r, db) ∧
      ∀ d, r = .ok d ↔ stored db id = some d ∧ d.organization = org := by
  rw [hctx.dashboards]
  have howned := Bolt.DashboardsStore.owned ids
  cases hd : stored db id with
  | none => exact ⟨_, Organizations.run_facade_get_none howned hctx.valid hd, by simp⟩
  | some d =>
    by_cases horg : d.organization = org
    · refine ⟨_, Organizations.run_facade_get_own howned hctx.valid hd horg, fun d' => ?_⟩
      rw [Except.ok.injEq, Option.some.injEq]
      exact ⟨fun h => ⟨h, h ▸ horg⟩, fun h => h.1⟩
    · refine ⟨_, Organizations.run_facade_get_foreign howned hctx.valid hd horg, fun d' => ?_⟩
      constructor
      · intro h
        cases h
      · rintro ⟨h, horg'⟩
        rw [← Option.some.inj h] at horg'
        exact absurd horg' horg

theorem run_dashboards_add (ids : ℕ → String) (hctx : InOrganization ctx org) (d : Dashboard) (db : Db) : ∃ d',
    ((Store.dashboards ids ctx).add ctx d).run db =
      (.ok d', { db with dashboards := db.dashboards.nextSequence.put (marshalDashboard d') }) ∧
      d'.id = db.dashboards.seq + 1 ∧ d'.organization = org := by
  rw [hctx.dashboards, Organizations.run_facade_add hctx.valid]
  exact ⟨_, rfl, rfl, rfl⟩

theorem run_dashboards_delete (hctx : InOrganization ctx org) (hd : stored db d.id = some d) :
    ((Store.dashboards ids ctx).delete ctx d).run db =
      (.ok (), { db with dashboards := db.dashboards.delete (Int.repr d.id) }) := by
  rw [hctx.dashboards, Organizations.run_facade_delete (Bolt.DashboardsStore.owned ids) hctx.valid hd]
  rfl

theorem run_dashboards_update (ids : ℕ → String) (hctx : InOrganization ctx org) (hd : stored db d'.id = some d) :
    ((Store.dashboards ids ctx).update ctx d').run db =
      (.ok (), { db with dashboards := db.dashboards.put (marshalDashboard (withCellIDs ids d')) }) := by
  rw [hctx.dashboards, Organizations.run_facade_update org (Bolt.DashboardsStore.owned ids) hctx.valid hd]
  obtain ⟨v, hv, -⟩ := Option.map_eq_some_iff.mp hd
  exact Tx.run_update_ok (by rw [hv])

end Stores

/-! ### Effects -/

/-- The number `ReplaceDashboard` goes on with: the one in the path, or -1. -/
def numberInPath (param : String) : ℤ := (atoi param).getD (-1)

/-- The request `req` for the dashboard `id` replaces one of `org` by one of
another organization: the one it names, or the default one when it names none. -/
structure Misplaces (db : Db) (org : String) (req : Dashboard) (id : ℤ) : Prop where
  owned : ∃ d, stored db id = some d ∧ d.organization = org
  valid : ValidParts req
  elsewhere : requestedOrganization req (defaultOrganization db).id ≠ org

/-- Only `ReplaceDashboard` may misplace a dashboard. -/
def DashboardCall.Misplaces (db : Db) (org : String) : DashboardCall → Prop
  | .replaceDashboard (some req) param => Server.Misplaces db org req (numberInPath param)
  | _ => False

/-- What the call leaves of `db` when it is made in the organization `org`. -/
inductive DashboardEffect (org : String) (db : Db) (call : DashboardCall) : Db → Prop
  | nothing : DashboardEffect org db call db
  | added (d : Dashboard) (hid : d.id = db.dashboards.seq + 1) (horg : d.organization = org) :
      DashboardEffect org db call { db with dashboards := db.dashboards.nextSequence.put (marshalDashboard d) }
  | removed (d : Dashboard) (hd : stored db d.id = some d) (horg : d.organization = org) :
      DashboardEffect org db call { db with dashboards := db.dashboards.delete (Int.repr d.id) }
  | written (d d' : Dashboard) (hd : stored db d.id = some d) (horg : d.organization = org) (hid : d'.id = d.id)
      (horg' : d'.organization = org) :
      DashboardEffect org db call { db with dashboards := db.dashboards.put (marshalDashboard d') }
  | misplaced (d d' : Dashboard) (hd : stored db d.id = some d) (horg : d.organization = org) (hid : d'.id = d.id)
      (hcall : call.Misplaces db org) :
      DashboardEffect org db call { db with dashboards := db.dashboards.put (marshalDashboard d') }

section Effects

variable {s : Service} {ctx : Context} {org : String} {db : Db} {call : DashboardCall} {d d' : Dashboard}
  {C : Db → Prop} {g : Error → Response} {param : String}

/-- A handler that goes on with the dashboard it got. -/
theorem get_leaves {f : Dashboard → Tx Response Db Response} (hctx : InOrganization ctx org) (id : ℤ) (hs : C db)
    (h : ∀ d, stored db id = some d → d.organization = org → C ((f d).run db).2) :
    C ((((Store.dashboards s.ids ctx).get ctx id).mapError g >>= f).run db).2 := by
  obtain ⟨r, hrun, hok⟩ := run_dashboards_get s.ids hctx id db
  refine Tx.leaves_mapError_bind (congrArg Prod.snd hrun) hs fun d hd => ?_
  rw [hrun] at hd
  obtain ⟨hd, horg⟩ := (hok d).mp hd
  exact h d hd horg

theorem run_dashboardInPath (s : Service) (hctx : InOrganization ctx org) (param : String) (db : Db) :
    ((dashboardInPath s ctx param).run db).2 = db ∧
    ∀ p, ((dashboardInPath s ctx param).run db).1 = .ok p →
      stored db p.2.id = some p.2 ∧ p.2.organization = org ∧ p.1 = p.2.id := by
  unfold dashboardInPath
  cases paramID param with
  | error err => exact ⟨rfl, fun p hp => nomatch hp⟩
  | ok id =>
    obtain ⟨r, hrun, hok⟩ := run_dashboards_get s.ids hctx id db
    simp only [Except.mapError, Tx.run_bind, Tx.run_ofExcept, Tx.run_mapError, hrun]
    cases r with
    | error err => exact ⟨rfl, fun p hp => nomatch hp⟩
    | ok d =>
      refine ⟨rfl, fun p hp => ?_⟩
      obtain rfl := Except.ok.inj hp
      obtain ⟨hd, horg⟩ := (hok d).mp rfl
      have hid := Bolt.DashboardsStore.id_of_stored hd
      exact ⟨hid ▸ hd, horg, hid.symm⟩

theorem dashboardInPath_leaves {f : ℤ × Dashboard → Tx Response Db Response} (hctx : InOrganization ctx org)
    (hs : C db) (h : ∀ d, stored db d.id = some d → d.organization = org → C ((f (d.id, d)).run db).2) :
    C ((dashboardInPath s ctx param >>= f).run db).2 := by
  obtain ⟨hdb, hok⟩ := run_dashboardInPath s hctx param db
  refine Tx.leaves_bind hdb hs fun p hp => ?_
  obtain ⟨hd, horg, hid⟩ := hok p hp
  rw [show p = (p.2.id, p.2) from Prod.ext hid rfl]
  exact h p.2 hd horg

/-- A handler that ends in writing a dashboard back. -/
theorem written_leaves {f : Unit → Tx Response Db Response} (hctx : InOrganization ctx org)
    (hf : ∀ a db', ((f a).run db').2 = db') (hd : stored db d.id = some d) (horg : d.organization = org)
    (hid : d'.id = d.id) (horg' : d'.organization = org) :
    DashboardEffect org db call ((((Store.dashboards s.ids ctx).update ctx d').mapError g >>= f).run db).2 := by
  refine Tx.leaves_write hf ?_
  rw [run_dashboards_update s.ids hctx (hid ▸ hd)]
  exact .written d (withCellIDs s.ids d') hd horg hid horg'

/-! ### The handlers -/

theorem run_withNameOrCells (s : Service) (hctx : InOrganization ctx org) (orig req : Dashboard) (db : Db) :
    ((withNameOrCells s ctx orig req).run db).2 = db ∧
    ∀ d', ((withNameOrCells s ctx orig req).run db).1 = .ok d' →
      d'.id = orig.id ∧ d'.organization = orig.organization := by
  have hpure : ∀ {d d' : Dashboard}, (Except.ok d : Except Response Dashboard) = .ok d' → d.id = orig.id →
      d.organization = orig.organization → d'.id = orig.id ∧ d'.organization = orig.organization := by
    intro d d' h hid horg
    obtain rfl := Except.ok.inj h
    exact ⟨hid, horg⟩
  unfold withNameOrCells
  split_ifs
  · exact ⟨rfl, fun d' h => hpure h rfl rfl⟩
  · simp only [Tx.run_bind, Tx.run_mapError, run_organizations_default hctx, Except.mapError, Tx.run_ofExcept]
    cases validDashboardRequest req (defaultOrganization db).id with
    | error err => exact ⟨rfl, fun d' h => nomatch h⟩
    | ok valid => exact ⟨rfl, fun d' h => hpure h rfl rfl⟩
  · exact ⟨rfl, fun d' h => nomatch h⟩

theorem newDashboard_effect (hctx : InOrganization ctx org) (body : Option Dashboard) :
    DashboardEffect org db call ((newDashboard s body).after ctx db) := by
  refine Tx.leaves_ofExcept_bind .nothing fun dashboard _ => ?_
  refine Tx.leaves_mapError_bind (congrArg Prod.snd (run_organizations_default hctx)) .nothing fun defaultOrg _ => ?_
  refine Tx.leaves_ofExcept_bind .nothing fun dashboard _ => ?_
  refine Tx.leaves_write (fun _ _ => rfl) ?_
  obtain ⟨d', hrun, hid, horg⟩ := run_dashboards_add s.ids hctx dashboard db
  rw [hrun]
  exact .added d' hid horg

theorem removeDashboard_effect (hctx : InOrganization ctx org) :
    DashboardEffect org db call ((removeDashboard s param).after ctx db) := by
  refine dashboardInPath_leaves hctx .nothing fun d hd horg => ?_
  refine Tx.leaves_write (fun _ _ => rfl) ?_
  rw [run_dashboards_delete hctx hd]
  exact .removed d hd horg

theorem updateDashboard_effect (hctx : InOrganization ctx org) (body : Option Dashboard) :
    DashboardEffect org db call ((updateDashboard s body param).after ctx db) := by
  refine Tx.leaves_ofExcept_bind .nothing fun id _ => ?_
  refine get_leaves hctx id .nothing fun d hd horg => ?_
  refine Tx.leaves_ofExcept_bind .nothing fun req _ => ?_
  obtain ⟨hdb, hok⟩ := run_withNameOrCells s hctx d { req with id := id } db
  refine Tx.leaves_bind hdb .nothing fun d' hd' => ?_
  obtain ⟨hid, horg'⟩ := hok d' hd'
  have hself := Bolt.DashboardsStore.id_of_stored hd
  exact written_leaves hctx (fun _ _ => rfl) (hself ▸ hd) horg hid (horg'.trans horg)

theorem newDashboardCell_effect (hctx : InOrganization ctx org) (body : Option DashboardCell)
    (uuid : Except String String) : DashboardEffect org db call ((newDashboardCell s body uuid param).after ctx db) := by
  refine dashboardInPath_leaves hctx .nothing fun d hd horg => ?_
  refine Tx.leaves_ofExcept_bind .nothing fun cell _ => ?_
  refine Tx.leaves_ofExcept_bind .nothing fun cell _ => ?_
  refine Tx.leaves_ofExcept_bind .nothing fun cid _ => ?_
  refine written_leaves hctx (fun _ _ => ?_) hd horg rfl horg
  split <;> rfl

theorem removeDashboardCell_effect (hctx : InOrganization ctx org) (cid : String) :
    DashboardEffect org db call ((removeDashboardCell s param cid).after ctx db) := by
  refine dashboardInPath_leaves hctx .nothing fun d hd horg => ?_
  dsimp only
  split
  · exact .nothing
  · exact written_leaves hctx (fun _ _ => rfl) hd horg rfl horg

theorem replaceDashboardCell_effect (hctx : InOrganization ctx org) (body : Option DashboardCell) (cid : String) :
    DashboardEffect org db call ((replaceDashboardCell s body param cid).after ctx db) := by
  refine dashboardInPath_leaves hctx .nothing fun d hd horg => ?_
  dsimp only
  split
  · exact .nothing
  · refine Tx.leaves_ofExcept_bind .nothing fun cell _ => ?_
    refine Tx.leaves_ofExcept_bind .nothing fun cell _ => ?_
    exact written_leaves hctx (fun _ _ => rfl) hd horg rfl horg

theorem newTemplate_effect (hctx : InOrganization ctx org) (body : Option Template) (uuid : Except String String) :
    DashboardEffect org db call ((newTemplate s body uuid param).after ctx db) := by
  refine dashboardInPath_leaves hctx .nothing fun d hd horg => ?_
  refine Tx.leaves_ofExcept_bind .nothing fun template _ => ?_
  refine Tx.leaves_ofExcept_bind .nothing fun _ _ => ?_
  refine Tx.leaves_ofExcept_bind .nothing fun tid _ => ?_
  exact written_leaves hctx (fun _ _ => rfl) hd horg rfl horg

theorem removeTemplate_effect (hctx : InOrganization ctx org) (tid : String) :
    DashboardEffect org db call ((removeTemplate s param tid).after ctx db) := by
  refine dashboardInPath_leaves hctx .nothing fun d hd horg => ?_
  dsimp only
  split
  · exact .nothing
  · exact written_leaves hctx (fun _ _ => rfl) hd horg rfl horg

theorem replaceTemplate_effect (hctx : InOrganization ctx org) (body : Option Template) (tid : String) :
    DashboardEffect org db call ((replaceTemplate s body param tid).after ctx db) := by
  refine dashboardInPath_leaves hctx .nothing fun d hd horg => ?_
  dsimp only
  split
  · exact .nothing
  · refine Tx.leaves_ofExcept_bind .nothing fun template _ => ?_
    refine Tx.leaves_ofExcept_bind .nothing fun _ _ => ?_
    exact written_leaves hctx (fun _ _ => rfl) hd horg rfl horg

/-! ### `ReplaceDashboard` -/

/-- A number that does not parse is answered, and the handler goes on with -1. -/
theorem replaceDashboard_after (s : Service) (body : Option Dashboard) (param : String) (ctx : Context) (db : Db) :
    (replaceDashboard s body param).after ctx db =
      (replaceDashboardWithID s body (numberInPath param)).after ctx db := by
  unfold Handler.after replaceDashboard numberInPath paramID
  cases atoi param with
  | some id => rfl
  | none =>
    dsimp only
    rw [Option.getD_none, Tx.run_bind, Tx.run_mapError]
    rcases (replaceDashboardWithID s body (-1) ctx).run db with ⟨⟨r⟩ | ⟨r⟩, db'⟩ <;> rfl

/-- A valid body replaces the dashboard. -/
theorem replaceDashboardWithID_after (hctx : InOrganization ctx org) {id : ℤ} {req req' : Dashboard}
    (hd : stored db id = some d) (horg : d.organization = org)
    (hreq : validDashboardRequest { req with id := id } (defaultOrganization db).id = .ok req') :
    (replaceDashboardWithID s (some req) id).after ctx db =
      { db with dashboards := db.dashboards.put (marshalDashboard (withCellIDs s.ids req')) } := by
  obtain ⟨r, hget, hok⟩ := run_dashboards_get s.ids hctx id db
  obtain rfl : r = .ok d := (hok d).mpr ⟨hd, horg⟩
  have hid : req'.id = id := (validDashboardRequest_ok hreq).1
  have hstored : stored db req'.id = some d := by
    rw [hid]
    exact hd
  have hput := run_dashboards_update s.ids hctx hstored
  simp only [Handler.after, replaceDashboardWithID, decode, Tx.run_bind, Tx.run_mapError, Tx.run_ofExcept, hget,
    run_organizations_default hctx, hreq, hput, Except.mapError]
  rfl

theorem replaceDashboard_effect (hctx : InOrganization ctx org) (body : Option Dashboard) (param : String) :
    DashboardEffect org db (.replaceDashboard body param) ((replaceDashboard s body param).after ctx db) := by
  rw [replaceDashboard_after]
  refine get_leaves hctx (numberInPath param) .nothing fun d hd horg => ?_
  refine Tx.leaves_ofExcept_bind .nothing fun req hbody => ?_
  refine Tx.leaves_mapError_bind (congrArg Prod.snd (run_organizations_default hctx)) .nothing fun o ho => ?_
  refine Tx.leaves_ofExcept_bind .nothing fun req' hreq => ?_
  obtain rfl : body = some req := by
    cases body with
    | none => cases hbody
    | some req' => rw [Except.ok.inj hbody]
  obtain rfl : defaultOrganization db = o := by
    rw [run_organizations_default hctx] at ho
    exact Except.ok.inj ho
  have hvalid := Tx.mapError_eq_ok.mp hreq
  have hid : req'.id = numberInPath param := (validDashboardRequest_ok hvalid).1
  have hdest : req'.organization = requestedOrganization req (defaultOrganization db).id :=
    (validDashboardRequest_ok hvalid).2
  have hself : d.id = numberInPath param := Bolt.DashboardsStore.id_of_stored hd
  have hd' : stored db d.id = some d := by
    rw [hself]
    exact hd
  refine Tx.leaves_write (fun _ _ => rfl) ?_
  rw [run_dashboards_update s.ids hctx (hid ▸ hd)]
  by_cases hsame : req'.organization = org
  · exact .written d _ hd' horg (hid.trans hself.symm) hsame
  · refine .misplaced d _ hd' horg (hid.trans hself.symm) ⟨⟨d, hd, horg⟩, ?_, hdest ▸ hsame⟩
    have hparts := validDashboardRequest_ok_iff.mp ⟨req', hvalid⟩
    exact ⟨hparts.cells, hparts.templates⟩

/-- Whatever the request, this is what it can do. -/
theorem dashboardCall_effect (s : Service) (hctx : InOrganization ctx org) (db : Db) (call : DashboardCall) :
    DashboardEffect org db call ((call.handler s).after ctx db) := by
  cases call with
  | dashboards =>
    have hreads : Tx.Reads ((Store.dashboards s.ids ctx).all ctx) := dashboards_all_reads s.ids ctx
    exact Tx.leaves_mapError_bind (hreads db) .nothing fun _ _ => .nothing
  | newDashboard body => exact newDashboard_effect hctx body
  | dashboardID id => exact dashboardInPath_leaves hctx .nothing fun _ _ _ => .nothing
  | removeDashboard id => exact removeDashboard_effect hctx
  | replaceDashboard body id => exact replaceDashboard_effect hctx body id
  | updateDashboard body id => exact updateDashboard_effect hctx body
  | dashboardCells id => exact dashboardInPath_leaves hctx .nothing fun _ _ _ => .nothing
  | newDashboardCell body uuid id => exact newDashboardCell_effect hctx body uuid
  | dashboardCellID id cid =>
    refine dashboardInPath_leaves hctx .nothing fun d _ _ => ?_
    dsimp only
    split <;> exact .nothing
  | removeDashboardCell id cid => exact removeDashboardCell_effect hctx cid
  | replaceDashboardCell body id cid => exact replaceDashboardCell_effect hctx body cid
  | templates id => exact dashboardInPath_leaves hctx .nothing fun _ _ _ => .nothing
  | newTemplate body uuid id => exact newTemplate_effect hctx body uuid
  | templateID id tid =>
    refine dashboardInPath_leaves hctx .nothing fun d _ _ => ?_
    dsimp only
    split <;> exact .nothing
  | removeTemplate id tid => exact removeTemplate_effect hctx tid
  | replaceTemplate body id tid => exact replaceTemplate_effect hctx body tid

end Effects

end Server
end Chronograf
