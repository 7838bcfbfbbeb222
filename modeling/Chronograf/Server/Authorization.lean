/-
# Who is let through

With authentication on, `AuthorizedUser` runs the next handler exactly for the
requests that are granted, and the context it hands on carries the
organization, the user and the role that were granted.

Key definitions: `rank`, `RanksAtLeast`, `Granted`, `Context.granted`.
Key theorems: `hasAuthorizedRole_iff`, `authorize_cases`,
`authorized_user_runs_iff_granted`.
-/
import Chronograf.Organizations.Lens
import Chronograf.Server.Auth

namespace Chronograf

open Bolt.UsersStore (findLogin)

/-- The organization the principal is logged into; without one it is the default one. -/
def Principal.currentOrganization (p : Principal) : String :=
  if p.organization = "" then Bolt.OrganizationsStore.defaultOrganizationID else p.organization

/-- The context of a user who was let through. -/
def Context.granted (ctx : Context) (org : String) (u : User) (role : String) : Context :=
  ((ctx.withOrganization org).withUser u).withRole role

namespace Server

/-! ### The ladder of roles -/

/-- The place of a role on the ladder. -/
def rank (role : String) : Option ℕ :=
  if role = memberRoleName then some 0
  else if role = viewerRoleName then some 1
  else if role = editorRoleName then some 2
  else if role = adminRoleName then some 3
  else none

/-- The given role is on the ladder, at the required one or above it. -/
def RanksAtLeast (required given : String) : Prop := ∃ i j, rank required = some i ∧ rank given = some j ∧ i ≤ j

theorem rank_eq_some {role : String} {i : ℕ} (h : rank role = some i) :
    role = memberRoleName ∧ i = 0 ∨ role = viewerRoleName ∧ i = 1 ∨ role = editorRoleName ∧ i = 2 ∨
      role = adminRoleName ∧ i = 3 := by
  unfold rank at h
  split_ifs at h with h0 h1 h2 h3
  · exact .inl ⟨h0, (Option.some.inj h).symm⟩
  · exact .inr (.inl ⟨h1, (Option.some.inj h).symm⟩)
  · exact .inr (.inr (.inl ⟨h2, (Option.some.inj h).symm⟩))
  · exact .inr (.inr (.inr ⟨h3, (Option.some.inj h).symm⟩))

/-- What the four lists of `hasAuthorizedRole` have in common. -/
theorem ranksAtLeast_iff_mem {required given : String} {i : ℕ} (h : rank required = some i) :
    RanksAtLeast required given ↔
      given ∈ [memberRoleName, viewerRoleName, editorRoleName, adminRoleName].drop i := by
  constructor
  · rintro ⟨i', j, hi, hj, hle⟩
    obtain rfl : i = i' := Option.some.inj (h.symm.trans hi)
    rcases rank_eq_some hj with ⟨rfl, rfl⟩ | ⟨rfl, rfl⟩ | ⟨rfl, rfl⟩ | ⟨rfl, rfl⟩ <;>
      (obtain h0 | h0 | h0 | h0 : i = 0 ∨ i = 1 ∨ i = 2 ∨ i = 3 := by omega) <;> subst h0 <;>
      first | omega | decide
  · intro hg
    rcases rank_eq_some h with ⟨-, rfl⟩ | ⟨-, rfl⟩ | ⟨-, rfl⟩ | ⟨-, rfl⟩ <;>
      simp only [List.drop_zero, List.drop_succ_cons, List.mem_cons, List.not_mem_nil, or_false] at hg
    · rcases hg with rfl | rfl | rfl | rfl
      · exact ⟨0, 0, h, rfl, le_refl 0⟩
      · exact ⟨0, 1, h, rfl, by omega⟩
      · exact ⟨0, 2, h, rfl, by omega⟩
      · exact ⟨0, 3, h, rfl, by omega⟩
    · rcases hg with rfl | rfl | rfl
      · exact ⟨1, 1, h, rfl, le_refl 1⟩
      · exact ⟨1, 2, h, rfl, by omega⟩
      · exact ⟨1, 3, h, rfl, by omega⟩
    · rcases hg with rfl | rfl
      · exact ⟨2, 2, h, rfl, le_refl 2⟩
      · exact ⟨2, 3, h, rfl, by omega⟩
    · subst hg
      exact ⟨3, 3, h, rfl, le_refl 3⟩

/-- `hasAuthorizedRole` looks for a role that ranks high enough. -/
theorem hasAuthorizedRole_iff {u : User} {role : String} :
    hasAuthorizedRole u role = true ↔ ∃ r ∈ u.roles, RanksAtLeast role r.name := by
  unfold hasAuthorizedRole
  split_ifs with h0 h1 h2 h3
  · simp [List.any_eq_true, ranksAtLeast_iff_mem (show rank role = some 0 by rw [h0]; rfl)]
  · simp [List.any_eq_true, ranksAtLeast_iff_mem (show rank role = some 1 by rw [h1]; rfl)]
  · simp [List.any_eq_true, ranksAtLeast_iff_mem (show rank role = some 2 by rw [h2]; rfl)]
  · simp [List.any_eq_true, ranksAtLeast_iff_mem (show rank role = some 3 by rw [h3]; rfl)]
  · have hnone : rank role = none := by simp [rank, h0, h1, h2, h3]
    refine ⟨fun h => absurd h (by simp), ?_⟩
    rintro ⟨r, -, i, j, hi, -⟩
    rw [hnone] at hi
    exact absurd hi (by simp)

/-! ### The decision -/

/-- In the store `db` the principal may go on as the user `u` with the role
`given` in the organization `org`, where `required` is asked for. -/
structure Granted (db : Db) (required : String) (p : Principal) (org : String) (u : User) (given : String) :
    Prop where
  subject : p.subject ≠ ""
  issuer : p.issuer ≠ ""
  current : org = p.currentOrganization
  stored : (db.organizations.get org).isSome
  user : findLogin db p.subject p.issuer "oauth2" = some u
  role : u.superAdmin = true ∧ given = adminRoleName ∨
    u.superAdmin = false ∧ ∃ r, u.rolesIn org = [r] ∧ RanksAtLeast required r.name ∧ given = r.name

variable {s : Service} {required : String} {ctx : Context} {db : Db} {p : Principal} {org given : String} {u : User}

/-- What `DefaultOrganization` finds. -/
def defaultOrganization (db : Db) : Organization :=
  (db.organizations.get Bolt.OrganizationsStore.defaultOrganizationID).getD ⟨"", "", ""⟩

theorem run_defaultOrganization :
    (Bolt.OrganizationsStore.defaultOrganization ctx).run db = (.ok (defaultOrganization db), db) := rfl

/-- The principal with the organization `AuthorizedUser` looks up. -/
def effective (db : Db) (p : Principal) : Principal :=
  if p.organization = "" then { p with organization := (defaultOrganization db).id } else p

theorem effective_query (db : Db) (p : Principal) (scheme : String) :
    (effective db p).query scheme = p.query scheme := by
  unfold effective
  split <;> rfl

/-- The organization that is looked up is the principal's current one, or neither is stored. -/
theorem effective_organization (db : Db) (p : Principal) :
    (effective db p).organization = p.currentOrganization ∨
      db.organizations.get (effective db p).organization = none ∧
        db.organizations.get p.currentOrganization = none := by
  unfold effective Principal.currentOrganization
  by_cases hblank : p.organization = ""
  · simp only [hblank, if_true]
    cases hdef : db.organizations.get Bolt.OrganizationsStore.defaultOrganizationID with
    | none =>
      have hid : (defaultOrganization db).id = "" := by rw [defaultOrganization, hdef]; rfl
      rw [hid]
      exact .inr ⟨Bucket.get_blank rfl, rfl⟩
    | some o =>
      have hid : (defaultOrganization db).id = o.id := by rw [defaultOrganization, hdef]; rfl
      rw [hid]
      exact .inl (Bucket.get_some hdef).2
  · simp only [hblank, if_false]
    exact .inl trivial

/-- The second lookup of `authorize`: the user with its roles in the organization. -/
theorem run_get_granted (hctx : hasServerContext ctx = false) (horg : org ≠ "") (p : Principal) (v : User) {u : User}
    (hlogin : findLogin db p.subject p.issuer "oauth2" = some u) :
    ((Store.users ((ctx.withOrganization org).withUser v)).get ((ctx.withOrganization org).withUser v)
        (p.query "oauth2")).run db =
      (if u.rolesIn org = [] then .error .errUserNotFound else .ok (u.inOrganization org), db) := by
  have hhas : hasOrganizationContext ((ctx.withOrganization org).withUser v) = some org := by
    simp [hasOrganizationContext, Context.withOrganization, Context.withUser, horg]
  have hfacade : Store.users ((ctx.withOrganization org).withUser v) =
      Organizations.newUsersStore Bolt.usersStore org := Store.users_organization hctx hhas
  have hget : (Organizations.UsersStore.get Bolt.usersStore org ((ctx.withOrganization org).withUser v)
      (p.query "oauth2")).run db = _ := Organizations.UsersStore.run_get (validOrganization_of_has hhas) _
  rw [Principal.query, Bolt.UsersStore.run_get_login, hlogin] at hget
  rw [hfacade]
  exact hget

/-- Without a role in the organization there is none that ranks high enough. -/
theorem not_authorized_of_no_roles (hin : u.rolesIn org = []) :
    hasAuthorizedRole (u.inOrganization org) required = false := by
  rw [Bool.eq_false_iff, ne_eq, hasAuthorizedRole_iff]
  rintro ⟨r, hr, -⟩
  rw [User.inOrganization, hin] at hr
  exact absurd hr (by simp)

/-- What `authorize` decides for a valid principal. -/
theorem run_authorize (hauth : s.useAuth = true) (hctx : hasServerContext ctx = false)
    (hp : getValidPrincipal ctx = .ok p) :
    (authorize s required ctx).run db =
      (if (db.organizations.get p.currentOrganization).isSome then
        match findLogin db p.subject p.issuer "oauth2" with
        | none => .error notAuthorized
        | some u =>
          if u.superAdmin = true then .ok (ctx.granted p.currentOrganization u adminRoleName)
          else if hasAuthorizedRole (u.inOrganization p.currentOrganization) required = true then
            match u.rolesIn p.currentOrganization with
            | [r] => .ok (ctx.granted p.currentOrganization u r.name)
            | _ => .error tooManyRoles
          else .error notAuthorized
      else .error notAuthorized, db) := by
  unfold authorize
  simp only [Tx.run_bind, Tx.run_mapError, Store.organizations_serverContext, Bolt.organizationsStore,
    run_defaultOrganization, Except.mapError, hauth, Bool.true_eq_false, if_false, hp, Tx.run_ofExcept, getScheme,
    Bolt.OrganizationsStore.get, Store.users_serverContext, Bolt.usersStore_get]
  rw [show (if p.organization = "" then { p with organization := (defaultOrganization db).id } else p) =
    effective db p from rfl]
  simp only [effective_query, Bolt.OrganizationsStore.run_getID]
  rcases effective_organization db p with heq | ⟨hnone, hnone'⟩
  · rw [heq]
    cases horg : db.organizations.get p.currentOrganization with
    | none => rfl
    | some o =>
      have hblank : p.currentOrganization ≠ "" := by
        intro hb
        rw [hb, Bucket.get_blank (by rfl)] at horg
        exact absurd horg (by simp)
      simp only [Principal.query, Bolt.UsersStore.run_get_login, Option.isSome_some, if_true]
      cases hlogin : findLogin db p.subject p.issuer "oauth2" with
      | none => rfl
      | some u =>
        cases hsuper : u.superAdmin with
        | true =>
          simp only [hsuper, if_true]
          rfl
        | false =>
          have hget := run_get_granted hctx hblank p u hlogin
          rw [Principal.query] at hget
          simp only [hsuper, Bool.false_eq_true, if_false, Tx.run_bind, Tx.run_mapError, hget]
          by_cases hin : u.rolesIn p.currentOrganization = []
          · simp only [hin, if_true, not_authorized_of_no_roles hin, Bool.false_eq_true, if_false, Except.mapError]
          · simp only [hin, if_false, Except.mapError]
            by_cases hrole : hasAuthorizedRole (u.inOrganization p.currentOrganization) required = true
            · simp only [hrole, if_true]
              rcases hroles : u.rolesIn p.currentOrganization with _ | ⟨r, _ | ⟨r', rs⟩⟩
              · exact absurd hroles hin
              · simp only [User.inOrganization, hroles]
                rfl
              · simp only [User.inOrganization, hroles]
                rfl
            · simp only [hrole, Bool.false_eq_true, if_false]
              rfl
  · rw [hnone, hnone']
    rfl

theorem getValidPrincipal_iff : getValidPrincipal ctx = .ok p ↔
    ctx.principal = some p ∧ p.subject ≠ "" ∧ p.issuer ≠ "" := by
  unfold getValidPrincipal getPrincipal
  cases ctx.principal with
  | none => simp
  | some q =>
    simp only [Option.some.injEq]
    split_ifs with hs hi
    · simp only [false_iff]
      rintro ⟨rfl, h, -⟩
      exact h hs
    · simp only [false_iff]
      rintro ⟨rfl, -, h⟩
      exact h hi
    · simp only [Except.ok.injEq]
      constructor
      · rintro rfl
        exact ⟨rfl, hs, hi⟩
      · exact fun h => h.1

/-- Without a valid principal nobody goes on. -/
theorem run_authorize_invalid {err : Error} (hauth : s.useAuth = true) (hp : getValidPrincipal ctx = .error err) :
    (authorize s required ctx).run db = (.error notAuthorized, db) := by
  unfold authorize
  simp only [Tx.run_bind, Tx.run_mapError, Store.organizations_serverContext, Bolt.organizationsStore,
    run_defaultOrganization, Except.mapError, hauth, Bool.true_eq_false, if_false, hp, Tx.run_ofExcept]

/-- Who is granted goes on with what is granted. -/
theorem authorize_of_granted (hauth : s.useAuth = true) (hctx : hasServerContext ctx = false)
    (hp : ctx.principal = some p) (h : Granted db required p org u given) :
    (authorize s required ctx).run db = (.ok (ctx.granted org u given), db) := by
  have hvalid := getValidPrincipal_iff.mpr ⟨hp, h.subject, h.issuer⟩
  have hstored := h.stored
  rw [run_authorize hauth hctx hvalid, ← h.current, if_pos hstored, h.user]
  rcases h.role with ⟨hsuper, rfl⟩ | ⟨hsuper, r, hr, hrank, rfl⟩
  · simp only [hsuper, if_true]
  · have hrole : hasAuthorizedRole (u.inOrganization org) required = true :=
      hasAuthorizedRole_iff.mpr ⟨r, by rw [User.inOrganization, hr]; exact List.mem_singleton_self r, hrank⟩
    simp only [hsuper, Bool.false_eq_true, if_false, hrole, if_true, hr]

/-- Whoever is let through was granted it. -/
theorem authorize_cases (s : Service) (required : String) (db : Db) (hauth : s.useAuth = true)
    (hctx : hasServerContext ctx = false) :
    (∃ p org u given, ctx.principal = some p ∧ Granted db required p org u given ∧
      (authorize s required ctx).run db = (.ok (ctx.granted org u given), db)) ∨
    ∃ r, (r = notAuthorized ∨ r = tooManyRoles) ∧ (authorize s required ctx).run db = (.error r, db) := by
  cases hp : getValidPrincipal ctx with
  | error err => exact .inr ⟨_, .inl rfl, run_authorize_invalid hauth hp⟩
  | ok p =>
    obtain ⟨hprincipal, hsubject, hissuer⟩ := getValidPrincipal_iff.mp hp
    rw [run_authorize hauth hctx hp]
    by_cases hstored : (db.organizations.get p.currentOrganization).isSome
    · rw [if_pos hstored]
      cases hlogin : findLogin db p.subject p.issuer "oauth2" with
      | none => exact .inr ⟨_, .inl rfl, rfl⟩
      | some u =>
        cases hsuper : u.superAdmin with
        | true =>
          refine .inl ⟨p, _, u, adminRoleName, hprincipal,
            ⟨hsubject, hissuer, rfl, hstored, hlogin, .inl ⟨hsuper, rfl⟩⟩, ?_⟩
          simp only [hsuper, if_true]
        | false =>
          simp only [hsuper, Bool.false_eq_true, if_false]
          by_cases hrole : hasAuthorizedRole (u.inOrganization p.currentOrganization) required = true
          · rw [if_pos hrole]
            obtain ⟨r, hr, hrank⟩ := hasAuthorizedRole_iff.mp hrole
            rcases hroles : u.rolesIn p.currentOrganization with _ | ⟨r', _ | ⟨r'', rs⟩⟩
            · exact .inr ⟨_, .inr rfl, rfl⟩
            · have hrr : r = r' := by
                rw [User.inOrganization, hroles] at hr
                exact List.mem_singleton.mp hr
              subst hrr
              exact .inl ⟨p, _, u, r.name, hprincipal,
                ⟨hsubject, hissuer, rfl, hstored, hlogin, .inr ⟨hsuper, r, hroles, hrank, rfl⟩⟩, rfl⟩
            · exact .inr ⟨_, .inr rfl, rfl⟩
          · rw [if_neg hrole]
            exact .inr ⟨_, .inl rfl, rfl⟩
    · rw [if_neg hstored]
      exact .inr ⟨_, .inl rfl, rfl⟩

/-- The organization of a grant is not blank. -/
theorem Granted.hasOrganization (h : Granted db required p org u given) (ctx : Context) :
    hasOrganizationContext (ctx.granted org u given) = some org := by
  have hblank : org ≠ "" := by
    intro hb
    have hstored := h.stored
    rw [hb, Bucket.get_blank (by rfl)] at hstored
    exact absurd hstored (by simp)
  simp [hasOrganizationContext, Context.granted, Context.withOrganization, Context.withUser, Context.withRole, hblank]

/-- With authentication on, `AuthorizedUser` runs the next handler exactly for a
granted request, with the organization, user and role of the grant on the
context, on which the stores are the facades of the organization; every other
request is refused without the next handler and changes nothing. -/
theorem authorized_user_runs_iff_granted (s : Service) (hauth : s.useAuth = true) (required : String)
    (ctx : Context) (hctx : hasServerContext ctx = false) (db : Db) :
    (∀ p org u given, ctx.principal = some p → Granted db required p org u given →
      let ctx' := ctx.granted org u given
      (∀ next : Handler, (authorizedUser s required next ctx).run db = (next ctx').run db) ∧
        ctx'.organization = some org ∧ ctx'.user = some u ∧ ctx'.role = some given ∧
        hasServerContext ctx' = false ∧ Store.Facades s.ids ctx' org) ∧
    ((∀ p org u given, ctx.principal = some p → ¬ Granted db required p org u given) →
      ∃ r, (r = notAuthorized ∨ r = tooManyRoles) ∧
        ∀ next : Handler, (authorizedUser s required next ctx).run db = (.error r, db)) := by
  refine ⟨fun p org u given hp h => ⟨fun next => ?_, rfl, rfl, rfl, hctx, ?_⟩, fun h => ?_⟩
  · exact Tx.run_bind_ok (authorize_of_granted hauth hctx hp h)
  · exact Store.facades hctx (h.hasOrganization ctx)
  · rcases authorize_cases s required db hauth hctx with
      ⟨p, org, u, given, hp, hg, -⟩ | ⟨r, hr, hrun⟩
    · exact absurd hg (h p org u given hp)
    · exact ⟨r, hr, fun next => Tx.run_bind_error hrun⟩

/-- A server with authentication, and a store with an editor of the default organization. -/
def exampleService : Service := ⟨true, ⟨""⟩, Nat.repr⟩

def exampleEditor : User := ⟨1, "alice", [⟨editorRoleName, "default"⟩], "github", "oauth2", false⟩

def exampleDb : Db := { Db.opened with users := Bucket.empty.nextSequence.put exampleEditor }

/-- The editor, logged into no organization in particular, may use a viewer's route. -/
theorem authorized_user_runs_iff_granted_example :
    (authorizedUser exampleService viewerRoleName (fun _ => pure { code := 204 })
      { principal := some ⟨"alice", "github", "", ""⟩ }).run exampleDb = (.ok { code := 204 }, exampleDb) :=
  ((authorized_user_runs_iff_granted exampleService rfl viewerRoleName
    { principal := some ⟨"alice", "github", "", ""⟩ } rfl exampleDb).1 ⟨"alice", "github", "", ""⟩ "default"
    exampleEditor editorRoleName rfl
    ⟨by decide, by decide, by decide, by decide, by decide,
      .inr ⟨rfl, ⟨editorRoleName, "default"⟩, by decide, ⟨1, 2, rfl, rfl, by decide⟩, rfl⟩⟩).1
    fun _ => pure { code := 204 }

end Server
end Chronograf
