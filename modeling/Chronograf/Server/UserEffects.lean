/-
# What a user request can do to the store

Each of the three handlers for users reads, checks, and then makes one call of
the store it was given. `UserEffect` lists what can come of it; what the
requests keep is read off this list without another look at the handlers.

Key definitions: `InOrganization`, `Assignable`, `FlagAllowed`, `UserEffect`.
Key theorem: `userCall_effect`.
-/
import Chronograf.Lib.Checks
import Chronograf.Organizations.Lens
import Chronograf.Server.Users

namespace Chronograf
namespace Server

open Bolt.UsersStore (findLogin)
open Organizations.UsersStore (merged)

/-- The stores are the facades of `org`. -/
structure InOrganization (ctx : Context) (org : String) : Prop where
  server : hasServerContext ctx = false
  organization : hasOrganizationContext ctx = some org

/-- Roles that may be given: at most one in each organization, in organizations that are stored. -/
structure Assignable (db : Db) (rs : List Role) : Prop where
  nodup : (rs.map Role.organization).Nodup
  stored : ∀ r ∈ rs, (db.organizations.get r.organization).isSome

/-- The request may turn the flag of `usr` into `flag`: only a super admin changes
it, and nobody gives up its own. -/
structure FlagAllowed (ctx : Context) (usr : User) (flag : Bool) : Prop where
  kept : hasSuperAdminContext ctx = false → flag = usr.superAdmin
  own : ∀ ctxUser, ctx.user = some ctxUser → ctxUser.id = usr.id → usr.superAdmin = true → flag = true

/-- What the call leaves of `db` when it is made with the context. -/
inductive UserEffect (ctx : Context) (db : Db) : UserCall → Db → Prop
  | nothing (call : UserCall) : UserEffect ctx db call db
  /-- A user nobody knew. -/
  | added (call : UserCall) (u : User) (hlogin : findLogin db u.name u.provider u.scheme = none)
      (hroles : Assignable db u.roles) (hsuper : u.superAdmin = true → hasSuperAdminContext ctx = true)
      (horg : ∀ org, InOrganization ctx org → ∀ r ∈ u.roles, r.organization = org) :
      UserEffect ctx db call { db with users := db.users.nextSequence.put { u with id := db.users.seq + 1 } }
  /-- A user of other organizations. -/
  | joined (call : UserCall) (org : String) (usr u : User) (hctx : InOrganization ctx org)
      (hlogin : findLogin db u.name u.provider u.scheme = some usr) (hnew : usr.rolesIn org = [])
      (hroles : Assignable db u.roles) (hsuper : u.superAdmin = true → hasSuperAdminContext ctx = true)
      (horg : ∀ r ∈ u.roles, r.organization = org) :
      UserEffect ctx db call { db with users := db.users.put (merged org usr u) }
  | updated (call : UserCall) (usr : User) (rs : List Role) (flag : Bool) (hctx : hasServerContext ctx = true)
      (hget : db.users.get usr.id = some usr) (hroles : Assignable db rs) (hflag : FlagAllowed ctx usr flag) :
      UserEffect ctx db call { db with users := db.users.put { usr with roles := rs, superAdmin := flag } }
  | updatedIn (call : UserCall) (org : String) (usr : User) (rs : List Role) (flag : Bool)
      (hctx : InOrganization ctx org) (hget : db.users.get usr.id = some usr) (hroles : Assignable db rs)
      (horg : ∀ r ∈ rs, r.organization = org) (hflag : FlagAllowed ctx usr flag) :
      UserEffect ctx db call
        { db with users := db.users.put { usr with roles := usr.setRoles org rs, superAdmin := flag } }
  | removed (usr : User) (hctx : hasServerContext ctx = true) (hget : db.users.get usr.id = some usr) :
      UserEffect ctx db (.removeUser (.ok usr.id)) { db with users := db.users.delete usr.id }
  | left (call : UserCall) (org : String) (usr : User) (hctx : InOrganization ctx org)
      (hget : db.users.get usr.id = some usr) :
      UserEffect ctx db call { db with users := db.users.put { usr with roles := usr.setRoles org [] } }

/-! ### The checks -/

section Checks

variable {s : Service} {ctx : Context} {db : Db} {req : UserRequest} {u usr : User} {rs rs' : List Role}

theorem checkRoles_ok : ∀ {orgs : List String} {rs : List Role}, UserRequest.checkRoles orgs rs = .ok () →
    (rs.map Role.organization).Nodup ∧ ∀ r ∈ rs, r.organization ∉ orgs
  | _, [], _ => ⟨List.nodup_nil, by simp⟩
  | orgs, r :: rs, h => by
    unfold UserRequest.checkRoles at h
    split_ifs at h with hblank hdup hname
    obtain ⟨hnodup, hnot⟩ := checkRoles_ok h
    have hr : r.organization ∉ rs.map Role.organization := by
      intro hmem
      obtain ⟨r', hr', heq⟩ := List.mem_map.mp hmem
      apply hnot r' hr'
      rw [heq]
      exact List.mem_cons_self
    refine ⟨List.nodup_cons.mpr ⟨hr, hnodup⟩, fun r' hr' => ?_⟩
    rcases List.mem_cons.mp hr' with rfl | hr'
    · exact hdup
    · exact fun hmem => hnot r' hr' (List.mem_cons_of_mem _ hmem)

theorem validCreate_ok {req' : UserRequest} (h : req.validCreate = .ok req') :
    ((req'.roles.getD []).map Role.organization).Nodup := by
  unfold UserRequest.validCreate at h
  split_ifs at h
  obtain ⟨⟨⟩, hroles, h⟩ := Except.bind_ok_iff.mp h
  obtain rfl := Except.ok.inj h
  exact (checkRoles_ok hroles).1

theorem validUpdate_ok (h : req.validUpdate = .ok rs) : (rs.map Role.organization).Nodup := by
  unfold UserRequest.validUpdate at h
  cases hr : req.roles with
  | none => simp [hr] at h
  | some roles =>
    rw [hr] at h
    obtain ⟨⟨⟩, hroles, h⟩ := Except.bind_ok_iff.mp h
    obtain rfl := Except.ok.inj h
    have hnodup := (checkRoles_ok hroles).1
    rw [hr, Option.getD_some] at hnodup
    exact hnodup

/-- Looking up the organizations changes nothing and keeps the organizations of the roles. -/
theorem run_validRoles (s : Service) (ctx : Context) (db : Db) : ∀ rs : List Role,
    ((validRoles s (serverContext ctx) rs).run db).2 = db ∧
    ∀ rs', ((validRoles s (serverContext ctx) rs).run db).1 = .ok rs' →
      rs'.map Role.organization = rs.map Role.organization ∧
        ∀ r ∈ rs', (db.organizations.get r.organization).isSome
  | [] => by
    refine ⟨rfl, fun rs' h => ?_⟩
    obtain rfl := Except.ok.inj h
    exact ⟨rfl, by simp⟩
  | r :: rs => by
    obtain ⟨hdb, hok⟩ := run_validRoles s ctx db rs
    unfold validRoles
    simp only [Tx.run_bind, Store.organizations_serverContext, Bolt.organizationsStore, Bolt.OrganizationsStore.get,
      Bolt.OrganizationsStore.run_getID]
    cases horg : db.organizations.get r.organization with
    | none => exact ⟨rfl, fun rs' h => by cases h⟩
    | some org =>
      rcases hrest : (validRoles s (serverContext ctx) rs).run db with ⟨⟨e⟩ | ⟨roles⟩, db'⟩
      · simp only [hrest] at hdb ⊢
        exact ⟨hdb, fun rs' h => by cases h⟩
      · simp only [hrest] at hdb hok ⊢
        obtain ⟨hmap, hstored⟩ := hok roles rfl
        refine ⟨hdb, fun rs' h => ?_⟩
        obtain rfl := Except.ok.inj h
        have hr : (if r.name = wildcardRoleName then { r with name := org.defaultRole } else r).organization =
            r.organization := by split <;> rfl
        refine ⟨by rw [List.map_cons, List.map_cons, hr, hmap], fun r' hr' => ?_⟩
        rcases List.mem_cons.mp hr' with rfl | hr'
        · rw [hr, horg, Option.isSome_some]
        · exact hstored r' hr'

theorem assignable_of_run (h : (rs.map Role.organization).Nodup)
    (hrun : ((validRoles s (serverContext ctx) rs).run db).1 = .ok rs') : Assignable db rs' := by
  obtain ⟨hmap, hstored⟩ := (run_validRoles s ctx db rs).2 rs' hrun
  exact ⟨by rw [hmap]; exact h, hstored⟩

/-- Only a super admin changes the flag. -/
theorem setSuperAdmin_ok (h : setSuperAdmin ctx req usr = .ok u) :
    u = { usr with superAdmin := req.superAdmin } ∧
      (hasSuperAdminContext ctx = false → req.superAdmin = usr.superAdmin) := by
  unfold setSuperAdmin at h
  split_ifs at h with hctx hflag
  · exact ⟨(Except.ok.inj h).symm, fun hf => absurd (hctx.symm.trans hf) (by simp)⟩
  · have heq : usr.superAdmin = req.superAdmin := not_ne_iff.mp hflag
    refine ⟨?_, fun _ => heq.symm⟩
    rw [← heq]
    exact (Except.ok.inj h).symm

/-- Nobody gives up being a super admin. -/
theorem checkUpdate_ok (h : checkUpdate ctx req usr = .ok ()) :
    ∀ ctxUser, ctx.user = some ctxUser → ctxUser.id = usr.id → usr.superAdmin = true → req.superAdmin = true := by
  intro ctxUser huser hid hsuper
  unfold checkUpdate at h
  split_ifs at h
  have hctx : hasUserContext ctx = some ctxUser := huser
  simp only [hctx] at h
  by_contra hflag
  rw [if_pos ⟨hid, hsuper, Bool.eq_false_iff.mpr hflag⟩] at h
  cases h

end Checks

/-! ### The calls of the store -/

section Calls

variable {ctx : Context} {db : Db} {call : UserCall} {u usr : User} {rs : List Role} {flag : Bool}

/-- The users store of a context is the store itself, a facade, or the one that refuses. -/
theorem users_cases (ctx : Context) :
    (hasServerContext ctx = true ∧ Store.users ctx = Bolt.usersStore) ∨
    (∃ org, InOrganization ctx org ∧ Store.users ctx = Organizations.newUsersStore Bolt.usersStore org) ∨
    Store.users ctx = Noop.usersStore := by
  cases hserver : hasServerContext ctx with
  | true => exact .inl ⟨rfl, Store.select_server hserver⟩
  | false =>
    cases horg : hasOrganizationContext ctx with
    | some org => exact .inr (.inl ⟨org, ⟨hserver, horg⟩, Store.users_organization hserver horg⟩)
    | none =>
      refine .inr (.inr ?_)
      rw [Store.users, Store.select, hserver, horg]
      rfl

/-- What `Get` shows of a stored user: all of it, or its roles in one organization. -/
inductive Shown (ctx : Context) (usr : User) : User → Prop
  | all (h : hasServerContext ctx = true) : Shown ctx usr usr
  | inOrganization (org : String) (h : InOrganization ctx org) : Shown ctx usr (usr.inOrganization org)

theorem run_users_get (ctx : Context) (db : Db) (id : ℕ) :
    (((Store.users ctx).get ctx { id := id }).run db).2 = db ∧
    ∀ u, (((Store.users ctx).get ctx { id := id }).run db).1 = .ok u →
      ∃ usr, db.users.get id = some usr ∧ Shown ctx usr u := by
  have hraw : ∀ u, ((Bolt.UsersStore.get ctx { id := id }).run db).1 = .ok u → db.users.get id = some u := by
    intro u h
    have hrun : ((Bolt.UsersStore.getID id).run db).1 = .ok u := h
    rw [Bolt.UsersStore.run_getID] at hrun
    cases hget : db.users.get id with
    | none => rw [hget] at hrun; cases hrun
    | some usr =>
      rw [hget] at hrun
      rw [Except.ok.inj hrun]
  rcases users_cases ctx with ⟨hserver, heq⟩ | ⟨org, hctx, heq⟩ | heq
  · rw [heq, Bolt.usersStore_get]
    exact ⟨Bolt.UsersStore.run_get_snd ctx _ db, fun u h => ⟨u, hraw u h, .all hserver⟩⟩
  · have hvalid := validOrganization_of_has hctx.organization
    rw [heq]
    refine ⟨congrArg Prod.snd (Organizations.UsersStore.run_get hvalid _), fun u h => ?_⟩
    obtain ⟨usr, hget, -, rfl⟩ := (Organizations.UsersStore.get_ok_iff hvalid _).mp h
    exact ⟨usr, hraw usr hget, .inOrganization org hctx⟩
  · rw [heq]
    exact ⟨rfl, fun u h => by cases h⟩

theorem add_effect (hroles : Assignable db u.roles) (hsuper : u.superAdmin = true → hasSuperAdminContext ctx = true) :
    UserEffect ctx db call (((Store.users ctx).add ctx u).run db).2 := by
  rcases users_cases ctx with ⟨hserver, heq⟩ | ⟨org, hctx, heq⟩ | heq
  · rw [heq, Bolt.usersStore_add]
    cases hlogin : findLogin db u.name u.provider u.scheme with
    | some usr =>
      rw [Bolt.UsersStore.run_add_of_some ctx hlogin]
      exact .nothing call
    | none =>
      rw [Bolt.UsersStore.run_add_of_none ctx hlogin]
      refine .added call u hlogin hroles hsuper fun org hctx => ?_
      rw [hctx.server] at hserver
      exact absurd hserver (by simp)
  · rw [heq]
    rcases Organizations.UsersStore.add_cases org ctx u db with
      ⟨e, hrun⟩ | ⟨horg, hlogin, hrun⟩ | ⟨usr, horg, hlogin, hnew, hrun⟩
    · rw [Organizations.newUsersStore_add, hrun]
      exact .nothing call
    · rw [Organizations.newUsersStore_add, hrun]
      refine .added call u hlogin hroles hsuper fun org' hctx' => ?_
      obtain rfl : org' = org := Option.some.inj (hctx'.organization.symm.trans hctx.organization)
      exact horg
    · rw [Organizations.newUsersStore_add, hrun]
      exact .joined call org usr u hctx hlogin hnew hroles hsuper horg
  · rw [heq]
    exact .nothing call

/-- The record passed to `Update` is what `Get` showed, with other roles and another flag. -/
theorem update_effect (hget : db.users.get usr.id = some usr) (hshown : Shown ctx usr u)
    (hroles : Assignable db rs) (hflag : FlagAllowed ctx usr flag) :
    UserEffect ctx db call
      (((Store.users ctx).update ctx { u with roles := rs, superAdmin := flag }).run db).2 := by
  cases hshown with
  | all hserver =>
    have heq : Store.users ctx = Bolt.usersStore := Store.select_server hserver
    have hget' : db.users.get ({ u with roles := rs, superAdmin := flag } : User).id = some u := hget
    rw [heq, Bolt.usersStore_update, Bolt.UsersStore.run_update_of_some ctx hget']
    exact .updated call u rs flag hserver hget hroles hflag
  | inOrganization org hctx =>
    rw [Store.users_organization hctx.server hctx.organization]
    rcases Organizations.UsersStore.update_cases org ctx
      { usr.inOrganization org with roles := rs, superAdmin := flag } db with ⟨e, hrun⟩ | ⟨usr', horg, hget', hrun⟩
    · rw [Organizations.newUsersStore_update, hrun]
      exact .nothing call
    · obtain rfl : usr = usr' := Option.some.inj (hget.symm.trans hget')
      rw [Organizations.newUsersStore_update, hrun]
      exact .updatedIn call org usr rs flag hctx hget hroles horg hflag

theorem delete_effect (hget : db.users.get usr.id = some usr) (hshown : Shown ctx usr u) :
    UserEffect ctx db (.removeUser (.ok usr.id)) (((Store.users ctx).delete ctx u).run db).2 := by
  cases hshown with
  | all hserver =>
    have heq : Store.users ctx = Bolt.usersStore := Store.select_server hserver
    rw [heq, Bolt.usersStore_delete, Bolt.UsersStore.run_delete_of_some ctx hget]
    exact .removed u hserver hget
  | inOrganization org hctx =>
    rw [Store.users_organization hctx.server hctx.organization]
    rcases Organizations.UsersStore.delete_cases org ctx (usr.inOrganization org) db with
      ⟨e, hrun⟩ | ⟨usr', hget', hrun⟩
    · rw [Organizations.newUsersStore_delete, hrun]
      exact .nothing _
    · obtain rfl : usr = usr' := Option.some.inj (hget.symm.trans hget')
      rw [Organizations.newUsersStore_delete, hrun]
      exact .left _ org usr hctx hget

end Calls

/-! ### The handlers -/

section Handlers

variable {s : Service} {ctx : Context} {db : Db} {oid : String}

theorem newUser_effect (body : Option UserRequest) (call : UserCall) :
    UserEffect ctx db call ((newUser s body oid).after ctx db) := by
  unfold Handler.after newUser
  refine Tx.leaves_ofExcept_bind (.nothing call) fun req _ => ?_
  refine Tx.leaves_ofExcept_bind (.nothing call) fun req' hreq' => ?_
  refine Tx.leaves_mapError_bind rfl (.nothing call) fun cfg _ => ?_
  refine Tx.leaves_mapError_bind (run_validRoles s ctx db _).1 (.nothing call) fun roles hroles => ?_
  refine Tx.leaves_ofExcept_bind (.nothing call) fun user huser => ?_
  refine Tx.leaves_write (fun _ _ => rfl) ?_
  have hnodup := validCreate_ok (Tx.mapError_eq_ok.mp hreq')
  have hassignable := assignable_of_run hnodup hroles
  obtain ⟨rfl, hflag⟩ := setSuperAdmin_ok (Tx.mapError_eq_ok.mp huser)
  refine add_effect hassignable fun hsuper => ?_
  by_contra hctx
  have hfalse := hflag (Bool.eq_false_iff.mpr hctx)
  rw [hfalse] at hsuper
  exact absurd hsuper (by simp)

theorem removeUser_effect (id : Param ℕ) : UserEffect ctx db (.removeUser id) ((removeUser id).after ctx db) := by
  unfold Handler.after removeUser paramUserID
  refine Tx.leaves_ofExcept_bind (.nothing _) fun n hn => ?_
  obtain rfl := Tx.mapError_eq_ok.mp hn
  obtain ⟨hdb, hshown⟩ := run_users_get ctx db n
  refine Tx.leaves_mapError_bind hdb (.nothing _) fun u hu => ?_
  obtain ⟨usr, hget, hview⟩ := hshown u hu
  refine Tx.leaves_write (fun _ _ => rfl) ?_
  obtain ⟨-, hid⟩ := Bucket.get_some hget
  obtain rfl : usr.id = n := hid
  exact delete_effect hget hview

theorem updateUser_effect (body : Option UserRequest) (id : Param ℕ) (call : UserCall) :
    UserEffect ctx db call ((updateUser s body id oid).after ctx db) := by
  unfold Handler.after updateUser paramUserID
  refine Tx.leaves_ofExcept_bind (.nothing call) fun req _ => ?_
  refine Tx.leaves_ofExcept_bind (.nothing call) fun n _ => ?_
  refine Tx.leaves_ofExcept_bind (.nothing call) fun reqRoles hreq => ?_
  obtain ⟨hdb, hshown⟩ := run_users_get ctx db n
  refine Tx.leaves_mapError_bind hdb (.nothing call) fun u hu => ?_
  refine Tx.leaves_mapError_bind (run_validRoles s ctx db _).1 (.nothing call) fun roles hroles => ?_
  refine Tx.leaves_ofExcept_bind (.nothing call) fun _ hcheck => ?_
  refine Tx.leaves_ofExcept_bind (.nothing call) fun user huser => ?_
  refine Tx.leaves_write (fun _ _ => rfl) ?_
  have hassignable := assignable_of_run (validUpdate_ok (Tx.mapError_eq_ok.mp hreq)) hroles
  obtain ⟨usr, hget, hview⟩ := hshown u hu
  obtain ⟨-, hid⟩ := Bucket.get_some hget
  obtain rfl : usr.id = n := hid
  obtain ⟨rfl, hflag⟩ := setSuperAdmin_ok (Tx.mapError_eq_ok.mp huser)
  have hown := checkUpdate_ok hcheck
  have hsame : u.id = usr.id ∧ u.superAdmin = usr.superAdmin := by
    cases hview with
    | all => exact ⟨rfl, rfl⟩
    | inOrganization => exact ⟨rfl, rfl⟩
  have hallowed : FlagAllowed ctx usr req.superAdmin :=
    ⟨fun hctx => (hflag hctx).trans hsame.2, fun ctxUser hctxUser hid hsuper =>
      hown ctxUser hctxUser (hid.trans hsame.1.symm) (hsame.2.trans hsuper)⟩
  have heffect := @update_effect ctx db call u usr roles req.superAdmin hget hview hassignable hallowed
  exact heffect

/-- What a call leaves is on the list. -/
theorem userCall_effect (s : Service) (ctx : Context) (db : Db) (oid : String) (call : UserCall) :
    UserEffect ctx db call ((call.handler s oid).after ctx db) := by
  cases call with
  | newUser body => exact newUser_effect body _
  | removeUser id => exact removeUser_effect id
  | updateUser body id => exact updateUser_effect body id _

end Handlers

end Server
end Chronograf
