/-
# At most one role in each organization

The roles of users are written when somebody logs in for the first time, when
a super admin changes its organization, through an organization's facade,
through the users store itself, when an organization is created and when one
is deleted. Each of these writes keeps at most one role of a user in an
organization, gives roles in stored organizations only, and keeps logins
unique.

Key definitions: `OneRole`, `RolesFrom`, `Step`.
Key theorems: `userCall_step`, `me_step`, `updateMe_step`.
-/
import Chronograf.Bolt.Deletion
import Chronograf.Server.Authorization
import Chronograf.Server.Mux
import Chronograf.Server.Reads
import Chronograf.Server.UserEffects

namespace Chronograf
namespace Server

open Bolt.OrganizationsStore (defaultOrganizationID)
open Bolt.UsersStore (findLogin)
open Organizations.UsersStore (merged)
open Tx (Reads)

/-- Users have at most one role in an organization and are told apart by their
logins; the default organization is stored. -/
structure OneRole (db : Db) : Prop where
  users : db.users.Issued
  organizations : db.organizations.Issued
  logins : db.users.UniqueBy User.login
  roles : ∀ u ∈ db.users.recs, (u.roles.map Role.organization).Nodup
  default : (db.organizations.get defaultOrganizationID).isSome

/-- Every role that a user of `db'` did not have in `db` is in an organization of `db'`. -/
def RolesFrom (db db' : Db) : Prop := ∀ u' ∈ db'.users.recs, ∀ r ∈ u'.roles,
  (∃ u ∈ db.users.recs, u.id = u'.id ∧ r ∈ u.roles) ∨ (db'.organizations.get r.organization).isSome

/-- A request that leaves the organizations alone. -/
def Step (db db' : Db) : Prop :=
  OneRole db → OneRole db' ∧ RolesFrom db db' ∧ db'.organizations = db.organizations

section Writes

variable {db db' : Db} {u usr v : User} {rs : List Role} {org : String}

theorem RolesFrom.refl (db : Db) : RolesFrom db db := fun u hu _ hr => .inl ⟨u, hu, rfl, hr⟩

instance : IsPreorder Db Step where
  refl db h := ⟨h, .refl db, rfl⟩
  trans a b c hab hbc h := by
    obtain ⟨hb, hfrom, horg⟩ := hab h
    obtain ⟨hc, hfrom', horg'⟩ := hbc hb
    refine ⟨hc, fun u'' hu'' r hr => ?_, horg'.trans horg⟩
    rcases hfrom' u'' hu'' r hr with ⟨u', hu', hid', hr'⟩ | hstored
    · rcases hfrom u' hu' r hr' with ⟨u, hu, hid, hold⟩ | hstored
      · exact .inl ⟨u, hu, hid.trans hid', hold⟩
      · rw [← horg'] at hstored
        exact .inr hstored
    · exact .inr hstored

/-- Roles with at most one in the organization, after those in other organizations. -/
theorem nodup_setRoles (husr : (usr.roles.map Role.organization).Nodup) (hrs : (rs.map Role.organization).Nodup)
    (horg : ∀ r ∈ rs, r.organization = org) : ((usr.setRoles org rs).map Role.organization).Nodup := by
  rw [User.setRoles, List.map_append, List.nodup_append]
  refine ⟨(List.filter_sublist.map _).nodup husr, hrs, fun a ha b hb => ?_⟩
  obtain ⟨r, hr, rfl⟩ := List.mem_map.mp ha
  obtain ⟨r', hr', rfl⟩ := List.mem_map.mp hb
  have hout : r.organization ≠ org := by simpa using (List.mem_filter.mp hr).2
  rw [horg r' hr']
  exact hout

/-- A new user with a new login. -/
theorem step_insert (hlogin : findLogin db u.name u.provider u.scheme = none) (hroles : Assignable db u.roles) :
    Step db { db with users := db.users.nextSequence.put { u with id := db.users.seq + 1 } } := by
  intro h
  have hmem : ∀ w, w ∈ (db.users.nextSequence.put { u with id := db.users.seq + 1 }).recs →
      w = { u with id := db.users.seq + 1 } ∨ w ∈ db.users.recs := fun w hw =>
    ((Bucket.mem_put (by simp)).mp hw).imp_right And.left
  refine ⟨⟨h.users.put_next rfl, h.organizations, ?_, fun w hw => ?_, h.default⟩, fun w hw r hr => ?_, rfl⟩
  · refine (Bucket.Issued.uniqueBy_put_next_iff h.users h.logins rfl).mpr ?_
    exact Bolt.UsersStore.findLogin_none.mp hlogin
  · rcases hmem w hw with rfl | hw
    · exact hroles.nodup
    · exact h.roles w hw
  · rcases hmem w hw with rfl | hw
    · exact .inr (hroles.stored r hr)
    · exact .inl ⟨w, hw, rfl, hr⟩

/-- A stored user is replaced by one with its login, which keeps roles or gets some in
stored organizations. -/
theorem step_put (hget : db.users.get usr.id = some usr) (hid : v.id = usr.id) (hlogin : v.login = usr.login)
    (hnodup : (usr.roles.map Role.organization).Nodup → (v.roles.map Role.organization).Nodup)
    (hroles : ∀ r ∈ v.roles, r ∈ usr.roles ∨ (db.organizations.get r.organization).isSome) :
    Step db { db with users := db.users.put v } := by
  intro h
  obtain ⟨husr, -⟩ := Bucket.get_some hget
  have hget' : db.users.get (key v) = some usr := by
    rw [key_user, hid]
    exact hget
  have hmem : ∀ w, w ∈ (db.users.put v).recs → w = v ∨ w ∈ db.users.recs := fun w hw =>
    ((Bucket.mem_put (by simp)).mp hw).imp_right And.left
  refine ⟨⟨h.users.put_of_get hget', h.organizations, h.logins.put_of_get hget' hlogin, fun w hw => ?_, h.default⟩,
    fun w hw r hr => ?_, rfl⟩
  · rcases hmem w hw with rfl | hw
    · exact hnodup (h.roles usr husr)
    · exact h.roles w hw
  · rcases hmem w hw with rfl | hw
    · rcases hroles r hr with hold | hstored
      · exact .inl ⟨usr, husr, hid.symm, hold⟩
      · exact .inr hstored
    · exact .inl ⟨w, hw, rfl, hr⟩

theorem step_delete (id : ℕ) : Step db { db with users := db.users.delete id } := by
  intro h
  refine ⟨⟨h.users.delete, h.organizations, h.logins.delete, fun w hw => ?_, h.default⟩, fun w hw r hr => ?_, rfl⟩
  · exact h.roles w (Bucket.mem_delete.mp hw).1
  · exact .inl ⟨w, (Bucket.mem_delete.mp hw).1, rfl, hr⟩

end Writes

/-! ### The requests for users -/

theorem UserEffect.step {ctx : Context} {db db' : Db} {call : UserCall} (h : UserEffect ctx db call db') :
    Step db db' := by
  have hset : ∀ (usr : User) (org : String) (rs : List Role), Assignable db rs → ∀ r ∈ usr.setRoles org rs,
      r ∈ usr.roles ∨ (db.organizations.get r.organization).isSome := by
    intro usr org rs hroles r hr
    rcases List.mem_append.mp hr with hr | hr
    · exact .inl (List.mem_filter.mp hr).1
    · exact .inr (hroles.stored r hr)
  cases h with
  | nothing => exact refl_of Step db
  | added _ u hlogin hroles hadmin horg => exact step_insert hlogin hroles
  | joined _ org usr u hctx hlogin hnew hroles hadmin horg =>
    obtain ⟨hmem, -⟩ := Bolt.UsersStore.findLogin_some hlogin
    have hget : db.users.get usr.id = some usr := Bucket.get_of_mem hmem
    exact step_put hget rfl rfl (fun hn => nodup_setRoles hn hroles.nodup horg) (hset usr org u.roles hroles)
  | updated _ usr rs flag hctx hget hroles hflag =>
    exact step_put hget rfl rfl (fun _ => hroles.nodup) fun r hr => .inr (hroles.stored r hr)
  | updatedIn _ org usr rs flag hctx hget hroles horg hflag =>
    exact step_put hget rfl rfl (fun hn => nodup_setRoles hn hroles.nodup horg) (hset usr org rs hroles)
  | removed usr hctx hget => exact step_delete usr.id
  | left _ org usr hctx hget =>
    have hnone : Assignable db [] := ⟨List.nodup_nil, by simp⟩
    exact step_put hget rfl rfl (fun hn => nodup_setRoles hn List.nodup_nil (by simp)) (hset usr org [] hnone)

theorem userCall_step (s : Service) (ctx : Context) (db : Db) (oid : String) (call : UserCall) :
    Step db ((call.handler s oid).after ctx db) :=
  (userCall_effect s ctx db oid call).step

theorem userRoute_step (s : Service) (ctx : Context) (db : Db) (route : UserRoute) (call : UserCall) :
    Step db ((route.serve s call).after ctx db) := by
  cases route with
  | organization oid =>
    rcases authorizedUser_after ctx s adminRoleName (routeMatchesPrincipal s oid (call.handler s oid)) db with
      h | ⟨ctx', h⟩
    · rw [UserRoute.serve, h]
      exact refl_of Step db
    · rw [UserRoute.serve, h]
      rcases routeMatchesPrincipal_after ctx' s oid (call.handler s oid) db with h' | h'
      · rw [h']
        exact refl_of Step db
      · rw [h']
        exact userCall_step s ctx' db oid call
  | raw =>
    rcases authorizedUser_after ctx s superAdminStatus (rawStoreAccess (call.handler s "")) db with h | ⟨ctx', h⟩
    · rw [UserRoute.serve, h]
      exact refl_of Step db
    · rw [UserRoute.serve, h]
      unfold Handler.after rawStoreAccess
      split_ifs
      · exact userCall_step s ctx' db "" call
      · exact userCall_step s (serverContext ctx') db "" call
      · exact refl_of Step db

/-! ### The user's own requests -/

section Me

variable {s : Service} {ctx : Context} {db : Db} {p : Principal} {usr : User} {scheme : String}

/-- The mappings give at most one role in an organization, in stored ones. -/
theorem run_mapRoles (s : Service) (ctx : Context) (p : Principal) (db : Db) : ∀ (ms : List Mapping)
    (roles : List Role), Assignable db roles →
    ((mapRoles s (serverContext ctx) p roles ms).run db).2 = db ∧
    ∀ rs, ((mapRoles s (serverContext ctx) p roles ms).run db).1 = .ok rs → Assignable db rs
  | [], roles, h => by
    refine ⟨rfl, fun rs hrs => ?_⟩
    obtain rfl := Except.ok.inj hrs
    exact h
  | mapping :: ms, roles, h => by
    unfold mapRoles
    by_cases happly : applyMapping mapping p = true
    · rw [if_pos happly]
      simp only [Tx.run_bind, Tx.run_attempt, Store.organizations_serverContext, Bolt.organizationsStore,
        Bolt.OrganizationsStore.get, Bolt.OrganizationsStore.run_getID]
      cases horg : db.organizations.get mapping.organization with
      | none => exact run_mapRoles s ctx p db ms roles h
      | some org =>
        dsimp only
        by_cases hdup : (roles.any fun role => role.organization = org.id) = true
        · rw [if_pos hdup]
          exact run_mapRoles s ctx p db ms roles h
        · rw [if_neg hdup]
          refine run_mapRoles s ctx p db ms _ ⟨?_, fun r hr => ?_⟩
          · rw [List.map_append, List.nodup_append]
            refine ⟨h.nodup, by simp, fun a ha b hb heq => hdup ?_⟩
            obtain ⟨r, hr, rfl⟩ := List.mem_map.mp ha
            obtain rfl : b = org.id := by simpa using hb
            exact List.any_eq_true.mpr ⟨r, hr, by simpa using heq⟩
          · rcases List.mem_append.mp hr with hr | hr
            · exact h.stored r hr
            · obtain rfl := List.mem_singleton.mp hr
              have hid : org.id = mapping.organization := (Bucket.get_some horg).2
              show (db.organizations.get org.id).isSome
              rw [hid, horg, Option.isSome_some]
    · rw [if_neg happly]
      exact run_mapRoles s ctx p db ms roles h

theorem run_mapPrincipalToRoles (s : Service) (ctx : Context) (p : Principal) (db : Db) :
    ((mapPrincipalToRoles s (serverContext ctx) p).run db).2 = db ∧
    ∀ rs, ((mapPrincipalToRoles s (serverContext ctx) p).run db).1 = .ok rs → Assignable db rs :=
  run_mapRoles s ctx p db db.mappings.recs [] ⟨List.nodup_nil, by simp⟩

/-- The default organization is found under its ID. -/
theorem OneRole.get_default (h : OneRole db) :
    (defaultOrganization db).id = defaultOrganizationID ∧
      (db.organizations.get (defaultOrganization db).id).isSome := by
  obtain ⟨o, ho⟩ := Option.isSome_iff_exists.mp h.default
  have hid : (defaultOrganization db).id = defaultOrganizationID := by
    rw [defaultOrganization, ho]
    exact (Bucket.get_some ho).2
  refine ⟨hid, ?_⟩
  rw [hid]
  exact h.default

theorem assignable_withDefaultRole (h : OneRole db) {rs : List Role} (hrs : Assignable db rs) (superAdmin : Bool) :
    Assignable db (withDefaultRole superAdmin (defaultOrganization db) rs) := by
  unfold withDefaultRole
  split_ifs with hnew
  · refine ⟨?_, fun r hr => ?_⟩
    · rw [List.map_append, List.nodup_append]
      refine ⟨hrs.nodup, by simp, fun a ha b hb heq => hnew.2 ?_⟩
      obtain ⟨r, hr, rfl⟩ := List.mem_map.mp ha
      obtain rfl : b = (defaultOrganization db).id := by simpa using hb
      exact List.any_eq_true.mpr ⟨r, hr, by simpa using heq⟩
    · rcases List.mem_append.mp hr with hr | hr
      · exact hrs.stored r hr
      · obtain rfl := List.mem_singleton.mp hr
        exact h.get_default.2
  · exact hrs

theorem findOrganizations_reads (s : Service) (ctx : Context) : ∀ ids : List String,
    Reads (findOrganizations s ctx ids)
  | [] => .pure
  | id :: ids => by
    refine .bind (.attempt (organizations_get_reads _ _ _)) fun r => ?_
    split
    · exact findOrganizations_reads s ctx ids
    · exact .fail
    · exact .bind (findOrganizations_reads s ctx ids) fun _ => .pure

theorem usersOrganizations_reads (s : Service) (ctx : Context) (u : User) : Reads (usersOrganizations s ctx u) :=
  findOrganizations_reads s ctx _

theorem newUsersAreSuperAdmin_reads : Reads newUsersAreSuperAdmin := by
  have hfirst : Reads firstUser := by
    refine .bind (.attempt .view) fun r => ?_
    split
    · exact .pure
    · exact .pure
  refine .bind hfirst fun first => .ite .pure (.bind (.attempt .view) fun r => ?_)
  split
  · exact .pure
  · exact .pure

/-- A stored user becomes a super admin at most. -/
theorem meOfUser_step {usr : User} (hget : db.users.get usr.id = some usr) :
    Step db ((meOfUser s (serverContext ctx) p usr).run db).2 := by
  unfold meOfUser
  dsimp only
  by_cases hpromoted : (mapPrincipalToSuperAdmin s p && !usr.superAdmin) = true
  · have hget' : db.users.get ({ usr with superAdmin := mapPrincipalToSuperAdmin s p } : User).id = some usr := hget
    simp only [hpromoted, if_true]
    refine Tx.leaves_then (C := Step db) ?_ fun _ db' hdb' => Reads.leaves (C := Step db) ?_ hdb'
    · rw [Tx.run_mapError, Store.users_serverContext, Bolt.usersStore_update,
        Bolt.UsersStore.run_update_of_some _ hget']
      exact step_put hget rfl rfl (fun hn => hn) fun r hr => .inl hr
    · exact .bind (.mapError (organizations_get_reads _ _ _)) fun _ =>
        .bind (.mapError (usersOrganizations_reads _ _ _)) fun _ => .pure
  · simp only [hpromoted]
    refine Reads.leaves (C := Step db) ?_ (refl_of Step db)
    exact .bind (.mapError (organizations_get_reads _ _ _)) fun _ =>
      .bind (.mapError (usersOrganizations_reads _ _ _)) fun _ => .pure

theorem raw_add_step (u : User) (hu : OneRole db → Assignable db u.roles) :
    Step db ((Bolt.UsersStore.add ctx u).run db).2 := by
  cases hlogin : findLogin db u.name u.provider u.scheme with
  | some usr =>
    rw [Bolt.UsersStore.run_add_of_some ctx hlogin]
    exact refl_of Step db
  | none =>
    rw [Bolt.UsersStore.run_add_of_none ctx hlogin]
    exact fun h => step_insert hlogin (hu h) h

/-- Somebody new is added with a new login. -/
theorem meOfNewUser_step (scheme : String) :
    Step db ((meOfNewUser s (serverContext ctx) p scheme (defaultOrganization db)).run db).2 := by
  unfold meOfNewUser
  refine Tx.leaves_mapError_bind (C := Step db) (newUsersAreSuperAdmin_reads db) (refl_of Step db)
    fun newSuperAdmin _ => ?_
  obtain ⟨hdb, hassignable⟩ := run_mapPrincipalToRoles s ctx p db
  refine Tx.leaves_mapError_bind (C := Step db) hdb (refl_of Step db) fun roles hroles => ?_
  split
  · exact refl_of Step db
  · refine Tx.leaves_then (C := Step db) ?_ fun newUser db' hdb' => Reads.leaves (C := Step db) ?_ hdb'
    · rw [Tx.run_mapError, Store.users_serverContext, Bolt.usersStore_add]
      exact raw_add_step _ fun h => assignable_withDefaultRole h (hassignable roles hroles) _
    · exact .bind (.mapError (usersOrganizations_reads _ _ _)) fun _ =>
        .bind (.mapError (organizations_get_reads _ _ _)) fun _ => .pure

/-- The query for a principal's user finds a stored user with that login. -/
theorem get_query (ctx : Context) (h : ((Bolt.UsersStore.get ctx (p.query scheme)).run db).1 = .ok usr) :
    findLogin db p.subject p.issuer scheme = some usr := by
  unfold Principal.query at h
  rw [Bolt.UsersStore.run_get_login] at h
  cases hlogin : findLogin db p.subject p.issuer scheme with
  | none => rw [hlogin] at h; cases h
  | some u =>
    rw [hlogin] at h
    rw [Except.ok.inj h]

theorem me_step (s : Service) (ctx : Context) (db : Db) : Step db ((me s).after ctx db) := by
  unfold Handler.after me
  split
  · exact refl_of Step db
  · refine Tx.leaves_ofExcept_bind (C := Step db) (refl_of Step db) fun p _ => ?_
    refine Tx.leaves_ofExcept_bind (C := Step db) (refl_of Step db) fun scheme _ => ?_
    refine Tx.leaves_mapError_bind (C := Step db) (organizations_default_reads _ _ db) (refl_of Step db)
      fun defaultOrg hdefault => ?_
    obtain rfl : defaultOrganization db = defaultOrg := Except.ok.inj hdefault
    refine Tx.leaves_bind (C := Step db) (Tx.Within.attempt (users_get_reads _ _) db) (refl_of Step db)
      fun found hfound => ?_
    rw [Tx.run_attempt, Except.ok.injEq] at hfound
    rcases found with err | usr
    · cases err with
      | errUserNotFound => exact meOfNewUser_step scheme
      | _ => exact refl_of Step db
    · have hlogin := get_query ctx hfound
      exact meOfUser_step (Bucket.get_of_mem (Bolt.UsersStore.findLogin_some hlogin).1)

/-- Whom the facade of an organization does not find has no role there. -/
theorem rolesIn_of_not_found {q : UserQuery} {o : String} (ho : o ≠ "")
    (hfacade : (((Store.users (ctx.withOrganization o)).get (ctx.withOrganization o) q).run db).1 =
      .error .errUserNotFound)
    (hraw : ((Bolt.UsersStore.get (serverContext ctx) q).run db).1 = .ok usr) : usr.rolesIn o = [] := by
  have hhas : hasOrganizationContext (ctx.withOrganization o) = some o := by
    simp [hasOrganizationContext, Context.withOrganization, ho]
  have hraw' : ((Bolt.UsersStore.get (ctx.withOrganization o) q).run db).1 = .ok usr := hraw
  cases hserver : hasServerContext (ctx.withOrganization o) with
  | true =>
    have hstore : Store.users (ctx.withOrganization o) = Bolt.usersStore := Store.select_server hserver
    rw [hstore, Bolt.usersStore_get, hraw'] at hfacade
    cases hfacade
  | false =>
    rw [Store.users_organization hserver hhas] at hfacade
    have hrun : (Organizations.UsersStore.get Bolt.usersStore o (ctx.withOrganization o) q).run db = _ :=
      Organizations.UsersStore.run_get (validOrganization_of_has hhas) q
    rw [hraw'] at hrun
    by_contra hin
    have hfound : ((Organizations.UsersStore.get Bolt.usersStore o (ctx.withOrganization o) q).run db).1 =
        .ok (usr.inOrganization o) := by
      rw [hrun]
      simp only [hin, if_false]
    rw [show (((Organizations.newUsersStore Bolt.usersStore o).get (ctx.withOrganization o) q).run db).1 =
      .ok (usr.inOrganization o) from hfound] at hfacade
    cases hfacade

/-- A role is added in an organization in which there was none. -/
theorem nodup_append_role {u : User} {name o : String} (hn : (u.roles.map Role.organization).Nodup)
    (hnone : u.rolesIn o = []) : ((u.roles ++ [(⟨name, o⟩ : Role)]).map Role.organization).Nodup := by
  rw [List.map_append, List.nodup_append]
  refine ⟨hn, by simp, fun a ha b hb heq => ?_⟩
  obtain ⟨r, hr, rfl⟩ := List.mem_map.mp ha
  obtain rfl : b = o := by simpa using hb
  have hin : r ∈ u.rolesIn b := List.mem_filter.mpr ⟨hr, by simpa using heq⟩
  rw [hnone] at hin
  cases hin

/-- The super admin gets the one role it has in the organization. -/
theorem joinOrganization_step {org : Organization} {o : String} (horg : db.organizations.get o = some org) :
    Step db ((joinOrganization (ctx.withOrganization o) (serverContext ctx) (p.query scheme) org).run db).2 := by
  obtain ⟨-, hid⟩ := Bucket.get_some horg
  rw [key_organization] at hid
  have ho : o ≠ "" := by
    rintro rfl
    rw [Bucket.get_blank (by rfl)] at horg
    cases horg
  unfold joinOrganization
  refine Tx.leaves_bind (C := Step db) (Tx.Within.attempt (users_get_reads _ _) db) (refl_of Step db)
    fun found hfound => ?_
  rw [Tx.run_attempt, Except.ok.injEq] at hfound
  rcases found with err | usr
  · cases err with
    | errUserNotFound =>
      refine Tx.leaves_mapError_bind (C := Step db) (users_get_reads _ _ db) (refl_of Step db) fun u hu => ?_
      dsimp only
      split_ifs
      · exact refl_of Step db
      · have hnone := rolesIn_of_not_found ho hfound hu
        have hget : db.users.get u.id = some u :=
          Bucket.get_of_mem (Bolt.UsersStore.findLogin_some (get_query ctx hu)).1
        have hget' : db.users.get ({ u with roles := u.roles ++ [⟨org.defaultRole, org.id⟩] } : User).id = some u :=
          hget
        rw [Tx.run_mapError, Store.users_serverContext, Bolt.usersStore_update,
          Bolt.UsersStore.run_update_of_some _ hget']
        rw [← hid] at hnone
        refine step_put hget rfl rfl (fun hn => nodup_append_role hn hnone) fun r hr => ?_
        rcases List.mem_append.mp hr with hr | hr
        · exact .inl hr
        · obtain rfl := List.mem_singleton.mp hr
          refine .inr ?_
          show (db.organizations.get org.id).isSome
          rw [hid, horg, Option.isSome_some]
    | _ => exact refl_of Step db
  · exact refl_of Step db

theorem updateMe_step (s : Service) (validated : Option Principal) (body : Option MeRequest)
    (authorized : Except Error Unit) (ctx : Context) (db : Db) :
    Step db ((updateMe s validated body authorized).after ctx db) := by
  unfold Handler.after updateMe
  refine Tx.leaves_ofExcept_bind (C := Step db) (refl_of Step db) fun principal _ => ?_
  refine Tx.leaves_ofExcept_bind (C := Step db) (refl_of Step db) fun req _ => ?_
  refine Tx.leaves_mapError_bind (C := Step db) (organizations_get_reads _ _ _ db) (refl_of Step db)
    fun org horg => ?_
  refine Tx.leaves_ofExcept_bind (C := Step db) (refl_of Step db) fun p _ => ?_
  have hget : db.organizations.get req.organization = some org := by
    have hrun : ((Bolt.OrganizationsStore.getID req.organization).run db).1 = .ok org := horg
    rw [Bolt.OrganizationsStore.run_getID] at hrun
    cases ho : db.organizations.get req.organization with
    | none => rw [ho] at hrun; cases hrun
    | some o =>
      rw [ho] at hrun
      rw [Except.ok.inj hrun]
  have hrest : Step db ((do
      let scheme ← Tx.ofExcept ((getScheme (ctx.withOrganization req.organization)).mapError Response.invalidData)
      joinOrganization (ctx.withOrganization req.organization) (serverContext ctx) (p.query scheme) org
      Tx.ofExcept (authorized.mapError (Response.ofError 500))
      me s ((ctx.withOrganization req.organization).withPrincipal
        { principal with organization := req.organization })).run db).2 := by
    refine Tx.leaves_ofExcept_bind (C := Step db) (refl_of Step db) fun scheme _ => ?_
    refine Tx.leaves_then (C := Step db) (joinOrganization_step hget) fun _ db' hdb' => ?_
    refine Tx.leaves_ofExcept_bind (C := Step db) hdb' fun _ _ => ?_
    exact trans_of Step hdb' (me_step s _ db')
  dsimp only
  split
  · refine Tx.leaves_bind (C := Step db) ?_ (refl_of Step db) fun _ _ => hrest
    exact Tx.Within.mapError (organizations_default_reads _ _) db
  · exact hrest

end Me

end Server
end Chronograf
