/-
# One role in each organization, over runs of requests

From a new database on, whatever requests are handled one after the other:
every user has at most one role in each organization, every role was given in
an organization that was stored then, and no two users have the same login.
So nobody is ever turned away for having too many roles.

Key definitions: `Extends`, `GivenWhileStored`.
Key theorems: `message_keeps`, `one_role_in_each_organization`.
-/
import Chronograf.Lib.Runs
import Chronograf.Server.OneRole

namespace Chronograf
namespace Server

open Bolt (Shrinks)
open Bolt.OrganizationsStore (defaultOrganizationID findName)
open Tx (Within)

/-! ### Organizations that come, change and go -/

/-- From `db` to `db'` users are the same and no organization is lost. -/
structure Extends (db db' : Db) : Prop where
  users : db'.users = db.users
  issued : db.organizations.Issued → db'.organizations.Issued
  stored : ∀ k, (db.organizations.get k).isSome → (db'.organizations.get k).isSome

instance : IsPreorder Db Extends where
  refl _ := ⟨rfl, fun h => h, fun _ h => h⟩
  trans _ _ _ h h' := ⟨h'.users.trans h.users, fun hi => h'.issued (h.issued hi), fun k hk => h'.stored k (h.stored k hk)⟩

section Relations

variable {db db' : Db}

theorem OneRole.of_extends (h : OneRole db) (he : Extends db db') : OneRole db' := by
  obtain ⟨husers, hissued, hstored⟩ := he
  refine ⟨?_, hissued h.organizations, ?_, ?_, hstored _ h.default⟩
  · rw [husers]
    exact h.users
  · rw [husers]
    exact h.logins
  · rw [husers]
    exact h.roles

theorem OneRole.of_shrinks (h : OneRole db) (hs : Shrinks db db') : OneRole db' := by
  refine ⟨fun u' hu' n hn => ?_, fun o ho n hn => ?_, fun x' hx' y' hy' heq => ?_, fun u' hu' => ?_, ?_⟩
  · obtain ⟨u, hu, hid, -, -⟩ := hs.users u' hu'
    rw [hs.userSeq]
    exact h.users u hu n (hid.trans hn)
  · obtain ⟨ho', -⟩ := Bucket.get_some (hs.organizations _ o (Bucket.get_of_mem ho))
    rw [hs.organizationSeq]
    exact h.organizations o ho' n hn
  · obtain ⟨x, hx, hxid, hxlogin, -⟩ := hs.users x' hx'
    obtain ⟨y, hy, hyid, hylogin, -⟩ := hs.users y' hy'
    have hxy : x = y := h.logins x hx y hy (hxlogin.symm.trans (heq.trans hylogin))
    have hid : x'.id = y'.id := by
      calc x'.id = x.id := hxid.symm
        _ = y.id := by rw [hxy]
        _ = y'.id := hyid
    exact Bucket.eq_of_key hx' hy' hid
  · obtain ⟨u, hu, -, -, hroles⟩ := hs.users u' hu'
    exact (hroles.map _).nodup (h.roles u hu)
  · rw [hs.default]
    exact h.default

theorem RolesFrom.of_shrinks (hs : Shrinks db db') : RolesFrom db db' := by
  intro u' hu' r hr
  obtain ⟨u, hu, hid, -, hroles⟩ := hs.users u' hu'
  exact .inl ⟨u, hu, hid, hroles.subset hr⟩

end Relations

section Stores

variable {ids : ℕ → String} {ctx : Context} {db : Db}

theorem delete_shrinks (ids : ℕ → String) (ctx : Context) (o : Organization) :
    Within Shrinks ((Store.organizations ids ctx).delete ctx o) := by
  refine organizations_induction (C := fun s : OrganizationsStore Db => Within Shrinks (s.delete ctx o)) ids ctx
    (Bolt.OrganizationsStore.delete_shrinks ids ctx o) (fun org => ?_) .fail
  exact .bind .ofExcept fun _ => .bind .view fun o' => Bolt.OrganizationsStore.delete_shrinks ids ctx o'

theorem bolt_update_extends (ctx : Context) (o : Organization) :
    Within Extends (Bolt.OrganizationsStore.update ctx o) := by
  intro db
  rcases Bolt.OrganizationsStore.update_cases ctx o db with ⟨e, hrun⟩ | ⟨org, hget, -, hrun⟩
  · rw [hrun]
    exact refl_of Extends db
  · rw [hrun]
    have hblank : ¬ blank (key o) := by
      have hk : key org = o.id := (Bucket.get_some hget).2
      rw [key_organization, ← hk]
      exact Bucket.not_blank_of_get hget
    refine ⟨rfl, fun hi => hi.put_of_get hget, fun k hk => ?_⟩
    show ((db.organizations.put o).get k).isSome
    rw [Bucket.get_put hblank]
    split_ifs
    · rfl
    · exact hk

theorem update_extends (ids : ℕ → String) (ctx : Context) (o : Organization) :
    Within Extends ((Store.organizations ids ctx).update ctx o) := by
  refine organizations_induction (C := fun s : OrganizationsStore Db => Within Extends (s.update ctx o)) ids ctx
    (bolt_update_extends ctx o) (fun org => ?_) .fail
  exact .bind .ofExcept fun _ => .bind .view fun _ => bolt_update_extends ctx o

/-- `Add` is refused, or it stores the organization it answers with. -/
theorem organizations_add_cases (ids : ℕ → String) (ctx : Context) (o : Organization) (db : Db) :
    (∃ e, ((Store.organizations ids ctx).add ctx o).run db = (.error e, db)) ∨
    ∃ res db', ((Store.organizations ids ctx).add ctx o).run db = (.ok res, db') ∧ Extends db db' ∧
      (db'.organizations.get res.id).isSome := by
  refine organizations_induction (C := fun s : OrganizationsStore Db => (∃ e, (s.add ctx o).run db = (.error e, db)) ∨
    ∃ res db', (s.add ctx o).run db = (.ok res, db') ∧ Extends db db' ∧ (db'.organizations.get res.id).isSome)
    ids ctx ?_ (fun org => .inl ⟨_, rfl⟩) (.inl ⟨_, rfl⟩)
  cases hname : findName db o.name with
  | some x => exact .inl ⟨_, Bolt.OrganizationsStore.run_add_of_some ctx hname⟩
  | none =>
    have hblank : ¬ blank (key { o with id := Nat.repr (db.organizations.seq + 1) }) :=
      Sequenced.not_blank_ofSeq (db.organizations.seq + 1)
    refine .inr ⟨_, _, Bolt.OrganizationsStore.run_add_of_none ctx hname,
      ⟨rfl, fun hi => hi.put_next rfl, fun k hk => ?_⟩, ?_⟩
    · show ((db.organizations.nextSequence.put _).get k).isSome
      rw [Bucket.get_put hblank, Bucket.get_nextSequence]
      split_ifs
      · rfl
      · exact hk
    · exact Option.isSome_iff_exists.mpr ⟨_, Bucket.get_put_self hblank⟩

/-- A refused `Add` of a user changes nothing. -/
theorem users_add_error {u : User} {e : Error} {db' : Db}
    (h : ((Store.users ctx).add ctx u).run db = (.error e, db')) : db' = db := by
  refine select_induction (C := fun s : UsersStore Db => ∀ db', (s.add ctx u).run db = (.error e, db') → db' = db) ctx
    (fun db' hrun => ?_) (fun org db' hrun => ?_) (fun db' hrun => ?_) db' h
  · cases hlogin : Bolt.UsersStore.findLogin db u.name u.provider u.scheme with
    | some usr =>
      rw [Bolt.usersStore_add, Bolt.UsersStore.run_add_of_some ctx hlogin] at hrun
      cases hrun
      rfl
    | none =>
      rw [Bolt.usersStore_add, Bolt.UsersStore.run_add_of_none ctx hlogin] at hrun
      cases hrun
  · exact (Organizations.UsersStore.refused org ctx db db' e u).1 hrun
  · cases hrun
    rfl

end Stores

/-! ### The requests for organizations -/

theorem removeOrganization_shrinks (s : Service) (oid : String) (ctx : Context) :
    Within Shrinks (removeOrganization s oid ctx) := by
  refine .bind (.mapError ?_) fun org => .bind (.mapError (delete_shrinks _ _ _)) fun _ => .pure
  intro db
  rw [organizations_get_reads s.ids ctx _ db]
  exact refl_of Shrinks db

theorem updateOrganization_extends (s : Service) (body : Option OrganizationRequest) (oid : String) (ctx : Context) :
    Within Extends (updateOrganization s body oid ctx) := by
  refine .bind .ofExcept fun req => .bind .ofExcept fun req' => .bind (.mapError ?_) fun org => ?_
  · intro db
    rw [organizations_get_reads s.ids ctx _ db]
    exact refl_of Extends db
  · exact .bind (.mapError (update_extends _ _ _)) fun _ => .pure

/-- The store after the attempt to delete the organization again. -/
theorem cleanup_shrinks (s : Service) (ctx : Context) (o : Organization) (msg : String) :
    Within Shrinks (cleanup s ctx o msg) :=
  .bind (.attempt (delete_shrinks _ _ _)) fun _ => .fail

theorem newOrganization_keeps (s : Service) (body : Option OrganizationRequest) (ctx : Context) {db : Db}
    (h : OneRole db) :
    OneRole ((newOrganization s body).after ctx db) ∧ RolesFrom db ((newOrganization s body).after ctx db) := by
  let C : Db → Prop := fun db' => OneRole db' ∧ RolesFrom db db'
  have hnothing : C db := ⟨h, .refl db⟩
  unfold Handler.after newOrganization
  refine Tx.leaves_ofExcept_bind (C := C) hnothing fun req _ => ?_
  refine Tx.leaves_ofExcept_bind (C := C) hnothing fun req' _ => ?_
  rw [Tx.run_bind, Tx.run_mapError]
  rcases organizations_add_cases s.ids ctx ⟨"", req'.name, req'.defaultRole⟩ db with
    ⟨e, hrun⟩ | ⟨res, mid, hrun, hext, hres⟩
  · rw [hrun]
    exact hnothing
  · rw [hrun]
    have hmid := h.of_extends hext
    have hback : ∀ {db'}, OneRole db' → RolesFrom mid db' → C db' := by
      intro db' hone hfrom
      refine ⟨hone, fun u' hu' r hr => ?_⟩
      rcases hfrom u' hu' r hr with ⟨u, hu, hid, hold⟩ | hstored
      · rw [hext.users] at hu
        exact .inl ⟨u, hu, hid, hold⟩
      · exact .inr hstored
    have hcleanup : ∀ msg, C ((cleanup s ctx res msg).run mid).2 := fun msg =>
      hback (hmid.of_shrinks (cleanup_shrinks s ctx res msg mid)) (.of_shrinks (cleanup_shrinks s ctx res msg mid))
    cases huser : hasUserContext ctx with
    | none => exact hcleanup _
    | some user =>
      simp only [Except.mapError, Tx.run_bind, Tx.run_attempt]
      rcases hadd : ((Store.users (ctx.withOrganization res.id)).add (ctx.withOrganization res.id)
        { user with roles := [⟨adminRoleName, res.id⟩] }).run mid with ⟨⟨e⟩ | ⟨u⟩, db'⟩
      · obtain rfl := users_add_error hadd
        exact hcleanup _
      · have hroles : Assignable mid [⟨adminRoleName, res.id⟩] := ⟨by simp, by simpa using hres⟩
        have hsuper : user.superAdmin = true → hasSuperAdminContext (ctx.withOrganization res.id) = true := by
          intro husuper
          have hctx : hasUserContext (ctx.withOrganization res.id) = some user := huser
          unfold hasSuperAdminContext
          rw [hctx]
          exact husuper
        have heffect : UserEffect (ctx.withOrganization res.id) mid (.newUser none)
          (((Store.users (ctx.withOrganization res.id)).add (ctx.withOrganization res.id)
            { user with roles := [⟨adminRoleName, res.id⟩] }).run mid).2 := add_effect hroles hsuper
        rw [hadd] at heffect
        obtain ⟨hone, hfrom, -⟩ := heffect.step hmid
        exact hback hone hfrom

/-! ### Runs -/

/-- From `db` to `db'` every role that is new is in an organization that is stored
by then, and was before unless the request creates an organization. -/
def GivenWhileStored (db db' : Db) (m : Message) : Prop := ∀ u' ∈ db'.users.recs, ∀ r ∈ u'.roles,
  (∃ u ∈ db.users.recs, u.id = u'.id ∧ r ∈ u.roles) ∨ (db'.organizations.get r.organization).isSome ∧
    ((db.organizations.get r.organization).isSome ∨ ∃ body, m.call = .newOrganization body)

theorem Step.given {db db' : Db} (h : OneRole db) (hstep : Step db db') (m : Message) :
    OneRole db' ∧ GivenWhileStored db db' m := by
  obtain ⟨hone, hfrom, horg⟩ := hstep h
  refine ⟨hone, fun u' hu' r hr => ?_⟩
  rcases hfrom u' hu' r hr with hold | hstored
  · exact .inl hold
  · exact .inr ⟨hstored, .inl (horg ▸ hstored)⟩

/-- A request that gives no roles. -/
theorem given_of_users {db db' : Db} (m : Message)
    (h : ∀ u' ∈ db'.users.recs, ∃ u ∈ db.users.recs, u.id = u'.id ∧ u'.roles.Sublist u.roles) :
    GivenWhileStored db db' m := by
  intro u' hu' r hr
  obtain ⟨u, hu, hid, hroles⟩ := h u' hu'
  exact .inl ⟨u, hu, hid, hroles.subset hr⟩

theorem route_keeps (s : Service) (m : Message) (ctx : Context) {db : Db} (h : OneRole db) :
    OneRole ((m.call.route s m.principal).after ctx db) ∧
      GivenWhileStored db ((m.call.route s m.principal).after ctx db) m := by
  obtain ⟨principal, call⟩ := m
  have hnothing : OneRole db ∧ GivenWhileStored db db ⟨principal, call⟩ := Step.given h (refl_of Step db) _
  cases call with
  | me => exact Step.given h (me_step s ctx db) _
  | updateMe body authorized => exact Step.given h (updateMe_step s principal body authorized ctx db) _
  | user route call => exact Step.given h (userRoute_step s ctx db route call) _
  | newOrganization body =>
    rcases authorizedUser_after ctx s superAdminStatus (newOrganization s body) db with hrun | ⟨ctx', hrun⟩
    · rw [Call.route, hrun]
      exact hnothing
    · rw [Call.route, hrun]
      obtain ⟨hone, hfrom⟩ := newOrganization_keeps s body ctx' h
      exact ⟨hone, fun u' hu' r hr => (hfrom u' hu' r hr).imp_right fun hstored => ⟨hstored, .inr ⟨body, rfl⟩⟩⟩
  | updateOrganization body oid =>
    rcases authorizedUser_after ctx s superAdminStatus (updateOrganization s body oid) db with hrun | ⟨ctx', hrun⟩
    · rw [Call.route, hrun]
      exact hnothing
    · rw [Call.route, hrun]
      have hext := updateOrganization_extends s body oid ctx' db
      refine ⟨h.of_extends hext, given_of_users _ fun u hu => ?_⟩
      have hmem : u ∈ db.users.recs := by
        rw [← hext.users]
        exact hu
      exact ⟨u, hmem, rfl, List.Sublist.refl _⟩
  | removeOrganization oid =>
    rcases authorizedUser_after ctx s superAdminStatus (removeOrganization s oid) db with hrun | ⟨ctx', hrun⟩
    · rw [Call.route, hrun]
      exact hnothing
    · rw [Call.route, hrun]
      have hshrinks := removeOrganization_shrinks s oid ctx' db
      refine ⟨h.of_shrinks hshrinks, given_of_users _ fun u' hu' => ?_⟩
      obtain ⟨u, hu, hid, -, hroles⟩ := hshrinks.users u' hu'
      exact ⟨u, hu, hid, hroles⟩

/-- Each request keeps at most one role in each organization. -/
theorem message_keeps (s : Service) (m : Message) {db : Db} (h : OneRole db) :
    OneRole (m.after s db) ∧ GivenWhileStored db (m.after s db) m := by
  unfold Message.after Message.handler authAPI
  split
  · cases hp : m.principal with
    | none => exact Step.given h (refl_of Step db) _
    | some p =>
      have hroute := route_keeps s m (Context.withPrincipal {} p) h
      rw [hp] at hroute
      exact hroute
  · exact route_keeps s m {} h

theorem default_ne_repr (n : ℕ) : defaultOrganizationID ≠ Nat.repr n := by
  intro h
  have hmem : 'd' ∈ (Nat.repr n).toList := by
    rw [← h]
    decide
  rw [Nat.toList_repr] at hmem
  exact absurd (Nat.isDigit_of_mem_toDigits (by decide) (by decide) hmem) (by decide)

/-- A new database. -/
theorem oneRole_opened : OneRole Db.opened where
  users := Bucket.Issued.empty
  organizations := Bucket.Issued.empty.put fun n hn => absurd hn (default_ne_repr n)
  logins := Bucket.uniqueBy_empty
  roles := fun u hu => by cases (show u ∈ ([] : List User) from hu)
  default := by decide

theorem length_rolesIn_le {u : User} (h : (u.roles.map Role.organization).Nodup) (org : String) :
    (u.rolesIn org).length ≤ 1 := by
  have hnodup : ((u.rolesIn org).map Role.organization).Nodup := (List.filter_sublist.map _).nodup h
  have hsame : (u.rolesIn org).map Role.organization = List.replicate (u.rolesIn org).length org := by
    refine List.eq_replicate_iff.mpr ⟨by simp, fun o ho => ?_⟩
    obtain ⟨r, hr, rfl⟩ := List.mem_map.mp ho
    simpa using (List.mem_filter.mp hr).2
  rw [hsame] at hnodup
  exact List.nodup_replicate.mp hnodup

/-- Nobody is turned away for too many roles. -/
theorem OneRole.authorize_ne {db : Db} (h : OneRole db) (s : Service) (required : String) (ctx : Context)
    (hctx : hasServerContext ctx = false) : ((authorize s required ctx).run db).1 ≠ .error tooManyRoles := by
  have hne : notAuthorized ≠ tooManyRoles := by decide
  cases hauth : s.useAuth with
  | false =>
    unfold authorize
    simp only [hauth, if_true, Tx.run_bind, Tx.run_mapError, Store.organizations_serverContext,
      Bolt.organizationsStore, run_defaultOrganization, Except.mapError]
    intro herror
    cases herror
  | true =>
    cases hp : getValidPrincipal ctx with
    | error err =>
      rw [run_authorize_invalid hauth hp]
      simpa using hne
    | ok p =>
      rw [run_authorize hauth hctx hp]
      split
      · split
        · simpa using hne
        · rename_i u hlogin
          split
          · simp
          split
          · rename_i hrole
            obtain ⟨r, hr, -⟩ := hasAuthorizedRole_iff.mp hrole
            have hlen := length_rolesIn_le (h.roles u (Bolt.UsersStore.findLogin_some hlogin).1) p.currentOrganization
            rcases hroles : u.rolesIn p.currentOrganization with _ | ⟨r', _ | ⟨r'', rs⟩⟩
            · rw [User.inOrganization, hroles] at hr
              cases hr
            · simp
            · rw [hroles, List.length_cons, List.length_cons] at hlen
              omega
          · simpa using hne
      · simpa using hne

/-- After any requests to a new database, handled one after the other, every user
has at most one role in each organization, logins are unique, and nobody is
turned away for too many roles; and whatever request comes next, the roles it
gives are in organizations that are stored then. -/
theorem one_role_in_each_organization (s : Service) (ms : List Message) :
    (∀ u ∈ (Message.run s Db.opened ms).users.recs, ∀ org, (u.rolesIn org).length ≤ 1) ∧
    (Message.run s Db.opened ms).users.UniqueBy User.login ∧
    (∀ p required, ((authorize s required (Context.withPrincipal {} p)).run (Message.run s Db.opened ms)).1 ≠
      .error tooManyRoles) ∧
    ∀ m, GivenWhileStored (Message.run s Db.opened ms) (Message.run s Db.opened (ms ++ [m])) m := by
  have hinv : OneRole (Message.run s Db.opened ms) :=
    foldl_keeps (f := Message.after s) (I := OneRole) (fun _ m h => (message_keeps s m h).1) ms Db.opened
      oneRole_opened
  refine ⟨fun u hu org => length_rolesIn_le (hinv.roles u hu) org, hinv.logins,
    fun p required => hinv.authorize_ne s required _ rfl, fun m => ?_⟩
  have hlast : Message.run s Db.opened (ms ++ [m]) = m.after s (Message.run s Db.opened ms) := List.foldl_append
  rw [hlast]
  exact (message_keeps s m hinv).2

end Server
end Chronograf
