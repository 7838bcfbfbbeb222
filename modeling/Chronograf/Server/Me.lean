/-
# Logging in

`server/mapping.go` and `server/me.go`: the first request of a principal makes
it a user, with the roles the mappings give; a user may change its current
organization, and a super admin is given a role in the one it changes to.

Key definitions: `mapPrincipalToRoles`, `mapPrincipalToSuperAdmin`, `me`,
`updateMe`.
-/
import Chronograf.Server.Auth
import Mathlib.Data.List.Dedup

namespace Chronograf
namespace Server

/-! ### Mappings -/

/-- `strings.Split(group, ",")`. -/
def splitGroups (group : String) : List String := (group.toList.splitOn ',').map String.ofList

def mapPrincipalToSuperAdmin (s : Service) (p : Principal) : Bool :=
  if p.issuer ≠ "auth0" then false
  else (splitGroups p.group).any fun group => group ≠ "" && group = s.superAdminProviderGroups.auth0

def matchGroup (m : String) (groups : List String) : Bool := groups.any fun group => m = group

def applyMapping (m : Mapping) (p : Principal) : Bool :=
  if m.provider ≠ mappingWildcard ∧ m.provider ≠ p.issuer then false
  else if m.scheme ≠ mappingWildcard ∧ m.scheme ≠ "oauth2" then false
  else if m.providerOrganization = mappingWildcard then true
  else matchGroup m.providerOrganization (splitGroups p.group)

/-- The default role of every organization that a mapping gives the principal,
after the roles given already. -/
def mapRoles (s : Service) (ctx : Context) (p : Principal) : List Role → List Mapping → Tx Error Db (List Role)
  | roles, [] => pure roles
  | roles, mapping :: mappings =>
    if applyMapping mapping p then do
      match ← ((Store.organizations s.ids ctx).get ctx { id := mapping.organization }).attempt with
      | .error _ => mapRoles s ctx p roles mappings
      | .ok org =>
        if roles.any fun role => role.organization = org.id then mapRoles s ctx p roles mappings
        else mapRoles s ctx p (roles ++ [⟨org.defaultRole, org.id⟩]) mappings
    else mapRoles s ctx p roles mappings

def mapPrincipalToRoles (s : Service) (ctx : Context) (p : Principal) : Tx Error Db (List Role) := do
  let mappings ← (Store.mappings ctx).all ctx
  mapRoles s ctx p [] mappings

/-! ### The user's own request -/

def firstUser : Tx Error Db Bool := do
  let serverCtx := serverContext {}
  match ← ((Store.users serverCtx).num serverCtx).attempt with
  | .error _ => pure false
  | .ok numUsers => pure (numUsers = 0)

def newUsersAreSuperAdmin : Tx Error Db Bool := do
  if ← firstUser then pure true
  else
    let serverCtx := serverContext {}
    match ← ((Store.config serverCtx).get serverCtx).attempt with
    | .error _ => pure false
    | .ok cfg => pure cfg.auth.superAdminNewUsers

/-- The organizations with these IDs; those that are gone by now are passed over. -/
def findOrganizations (s : Service) (ctx : Context) : List String → Tx Error Db (List Organization)
  | [] => pure []
  | orgID :: orgIDs => do
    match ← ((Store.organizations s.ids ctx).get ctx { id := orgID }).attempt with
    | .error .errOrganizationNotFound => findOrganizations s ctx orgIDs
    | .error err => Tx.fail err
    | .ok org => do
      let orgs ← findOrganizations s ctx orgIDs
      pure (org :: orgs)

/-- The organizations the user has a role in, in the order of their IDs. -/
def usersOrganizations (s : Service) (ctx : Context) (u : User) : Tx Error Db (List Organization) :=
  findOrganizations s ctx ((u.roles.map Role.organization).dedup.mergeSort fun a b => a ≤ b)

def newMeResponse (usr : User) (org : String) (organizations : List Organization)
    (currentOrganization : Organization) : Response :=
  { code := 200
    body := [.me ⟨"/chronograf/v1/organizations/" ++ org ++ "/users/" ++ Nat.repr usr.id, usr, organizations,
      currentOrganization⟩] }

/-- `Me` for a user that is stored. -/
def meOfUser (s : Service) (serverCtx : Context) (p : Principal) (usr : User) : Tx Response Db Response := do
  let superAdmin := mapPrincipalToSuperAdmin s p
  let promoted := superAdmin && !usr.superAdmin
  let usr := if promoted then { usr with superAdmin := superAdmin } else usr
  if promoted then ((Store.users serverCtx).update serverCtx usr).mapError .unknownErrorWithMessage else pure ()
  let currentOrg ← ((Store.organizations s.ids serverCtx).get serverCtx { id := p.organization }).mapError fun
    | .errOrganizationNotFound => .error 403 "user's current organization was not found"
    | err => .unknownErrorWithMessage err
  let orgs ← (usersOrganizations s serverCtx usr).mapError .unknownErrorWithMessage
  pure (newMeResponse usr currentOrg.id orgs currentOrg)

/-- A super admin has a role in the default organization. -/
def withDefaultRole (superAdmin : Bool) (defaultOrg : Organization) (roles : List Role) : List Role :=
  if superAdmin = true ∧ ¬ roles.any fun role => role.organization = defaultOrg.id then
    roles ++ [⟨defaultOrg.defaultRole, defaultOrg.id⟩]
  else roles

/-- `Me` for a principal that is not a user yet. -/
def meOfNewUser (s : Service) (serverCtx : Context) (p : Principal) (scheme : String) (defaultOrg : Organization) :
    Tx Response Db Response := do
  let newSuperAdmin ← newUsersAreSuperAdmin.mapError .unknownErrorWithMessage
  let superAdmin := mapPrincipalToSuperAdmin s p
  let userSuperAdmin := if superAdmin then superAdmin else newSuperAdmin
  let roles ← (mapPrincipalToRoles s serverCtx p).mapError (.ofError 500)
  if ¬ superAdmin ∧ roles.length = 0 then
    Tx.fail (.error 403 ("This Chronograf is private. To gain access, you must be explicitly added by an " ++
      "administrator."))
  else do
    let roles := withDefaultRole userSuperAdmin defaultOrg roles
    let user : User := ⟨0, p.subject, roles, p.issuer, scheme, userSuperAdmin⟩
    let newUser ← ((Store.users serverCtx).add serverCtx user).mapError fun err =>
      .unknownErrorWithMessage (.errorf ("error storing user " ++ user.name ++ ": " ++ err.error))
    let orgs ← (usersOrganizations s serverCtx newUser).mapError .unknownErrorWithMessage
    let currentOrg ← ((Store.organizations s.ids serverCtx).get serverCtx { id := p.organization }).mapError
      .unknownErrorWithMessage
    pure (newMeResponse newUser currentOrg.id orgs currentOrg)

def me (s : Service) : Handler := fun ctx =>
  if s.useAuth = false then pure { code := 200, body := [.noAuthMe "/chronograf/v1/me"] }
  else do
    let p ← Tx.ofExcept ((getValidPrincipal ctx).mapError .invalidData)
    let scheme ← Tx.ofExcept ((getScheme ctx).mapError .invalidData)
    let ctx := ctx.withOrganization p.organization
    let serverCtx := serverContext ctx
    let defaultOrg ← ((Store.organizations s.ids serverCtx).defaultOrganization serverCtx).mapError
      .unknownErrorWithMessage
    let p := if p.organization = "" then { p with organization := defaultOrg.id } else p
    match ← ((Store.users serverCtx).get serverCtx (p.query scheme)).attempt with
    | .ok usr => meOfUser s serverCtx p usr
    | .error .errUserNotFound => meOfNewUser s serverCtx p scheme defaultOrg
    | .error err => Tx.fail (.unknownErrorWithMessage err)

/-! ### Changing the current organization -/

/-- The request to change to the organization with the ID. -/
structure MeRequest where
  organization : String
  deriving DecidableEq

/-- A super admin that is not in the organization is given a role there. -/
def joinOrganization (ctx serverCtx : Context) (q : UserQuery) (org : Organization) : Tx Response Db Unit := do
  match ← ((Store.users ctx).get ctx q).attempt with
  | .ok _ => pure ()
  | .error .errUserNotFound => do
    let u ← ((Store.users serverCtx).get serverCtx q).mapError (.ofError 403)
    if u.superAdmin = false then Tx.fail (.ofError 403 .errUserNotFound)
    else
      let u := { u with roles := u.roles ++ [⟨org.defaultRole, org.id⟩] }
      ((Store.users serverCtx).update serverCtx u).mapError .unknownErrorWithMessage
  | .error err => Tx.fail (.ofError 400 err)

/-- `validated` is what the authenticator's `Validate` makes of the request, and
`authorized` what its `Authorize` answers. -/
def updateMe (s : Service) (validated : Option Principal) (body : Option MeRequest)
    (authorized : Except Error Unit) : Handler := fun ctx => do
  let serverCtx := serverContext ctx
  let principal ← Tx.ofExcept (match validated with
    | some principal => .ok principal
    | none => .error (Response.error 403 "invalid principal"))
  let req ← decode body
  let org ← ((Store.organizations s.ids serverCtx).get serverCtx { id := req.organization }).mapError (.ofError 400)
  let ctx := ctx.withOrganization req.organization
  let p ← Tx.ofExcept ((getValidPrincipal ctx).mapError .invalidData)
  if p.organization = "" then do
    let _ ← ((Store.organizations s.ids serverCtx).defaultOrganization serverCtx).mapError .unknownErrorWithMessage
  let scheme ← Tx.ofExcept ((getScheme ctx).mapError .invalidData)
  joinOrganization ctx serverCtx (p.query scheme) org
  let principal := { principal with organization := req.organization }
  Tx.ofExcept (authorized.mapError (.ofError 500))
  me s (ctx.withPrincipal principal)

end Server
end Chronograf
