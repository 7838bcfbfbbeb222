/-
# Authorization

The middlewares in front of the handlers (`server/auth.go`, `server/middle.go`,
and `getValidPrincipal` of `server/me.go`): who a request comes from, whether
this user may go on, and in which organization and role it goes on.

Key definitions: `hasAuthorizedRole`, `authorizedUser`, `rawStoreAccess`,
`routeMatchesPrincipal`, `authorizedToken`, `authAPI`.
-/
import Chronograf.Server.Response
import Chronograf.Server.Stores

namespace Chronograf
namespace Server

/-- The groups of a provider whose members are super admins. -/
structure SuperAdminProviderGroups where
  auth0 : String
  deriving DecidableEq

/-- The part of `server.Service` that is configuration, and the identifiers its
dashboards store gives out. -/
structure Service where
  useAuth : Bool
  superAdminProviderGroups : SuperAdminProviderGroups
  ids : ℕ → String

/-! ### The principal -/

def getScheme (_ : Context) : Except Error String := .ok "oauth2"

def getPrincipal (ctx : Context) : Except Error Principal :=
  match ctx.principal with
  | some p => .ok p
  | none => .error (.errorf "Token not found")

def getValidPrincipal (ctx : Context) : Except Error Principal :=
  match getPrincipal ctx with
  | .error err => .error err
  | .ok p =>
    if p.subject = "" then .error (.errorf "Token not found")
    else if p.issuer = "" then .error (.errorf "Token not found")
    else .ok p

/-! ### The middlewares -/

def notAuthorized : Response := .error 403 "User is not authorized"

def tooManyRoles : Response :=
  .unknownErrorWithMessage (.errorf "please have administrator check logs and report error")

/-- The roles are taken in the order of the ladder; a super admin never gets here. -/
def hasAuthorizedRole (u : User) (role : String) : Bool :=
  if role = memberRoleName then
    u.roles.any fun r => r.name ∈ [memberRoleName, viewerRoleName, editorRoleName, adminRoleName]
  else if role = viewerRoleName then
    u.roles.any fun r => r.name ∈ [viewerRoleName, editorRoleName, adminRoleName]
  else if role = editorRoleName then
    u.roles.any fun r => r.name ∈ [editorRoleName, adminRoleName]
  else if role = adminRoleName then
    u.roles.any fun r => r.name ∈ [adminRoleName]
  else false

/-- What `AuthorizedUser` makes of the context before it runs the next handler. -/
def authorize (s : Service) (role : String) (ctx : Context) : Tx Response Db Context := do
  let serverCtx := serverContext ctx
  let defaultOrg ← ((Store.organizations s.ids serverCtx).defaultOrganization serverCtx).mapError fun _ => notAuthorized
  -- without authentication every request works in the default organization, at the stores themselves
  if s.useAuth = false then pure (serverContext (ctx.withOrganization defaultOrg.id))
  else do
    let p ← Tx.ofExcept ((getValidPrincipal ctx).mapError fun _ => notAuthorized)
    let scheme ← Tx.ofExcept ((getScheme ctx).mapError fun _ => notAuthorized)
    let p := if p.organization = "" then { p with organization := defaultOrg.id } else p
    let _ ← ((Store.organizations s.ids serverCtx).get serverCtx { id := p.organization }).mapError fun _ => notAuthorized
    let ctx := ctx.withOrganization p.organization
    let u ← ((Store.users serverCtx).get serverCtx (p.query scheme)).mapError fun _ => notAuthorized
    let ctx := ctx.withUser u
    if u.superAdmin = true then pure (ctx.withRole adminRoleName)
    else do
      let u ← ((Store.users ctx).get ctx (p.query scheme)).mapError fun _ => notAuthorized
      if hasAuthorizedRole u role = true then
        match u.roles with
        | [r] => pure (ctx.withRole r.name)
        | _ => Tx.fail tooManyRoles
      else Tx.fail notAuthorized

/-- `AuthorizedUser`. -/
def authorizedUser (s : Service) (role : String) (next : Handler) : Handler := fun ctx => do
  let ctx ← authorize s role ctx
  next ctx

/-- `RawStoreAccess`. -/
def rawStoreAccess (next : Handler) : Handler := fun ctx =>
  if hasServerContext ctx then next ctx
  else if hasSuperAdminContext ctx then next (serverContext ctx)
  else Tx.fail notAuthorized

/-- `RouteMatchesPrincipal`, in a route for the organization `orgID`. -/
def routeMatchesPrincipal (s : Service) (orgID : String) (next : Handler) : Handler := fun ctx =>
  if s.useAuth = false then next ctx
  else do
    let p ← Tx.ofExcept ((getValidPrincipal ctx).mapError fun _ => notAuthorized)
    let org ←
      if p.organization = "" then do
        let defaultOrg ← ((Store.organizations s.ids ctx).defaultOrganization ctx).mapError fun _ => notAuthorized
        pure defaultOrg.id
      else pure p.organization
    if orgID ≠ org then Tx.fail notAuthorized else next ctx

/-- `AuthorizedToken`; `validated` is the principal of the request's token, if the
authenticator finds the token valid and extends it. -/
def authorizedToken (validated : Option Principal) (next : Handler) : Handler := fun ctx =>
  match validated with
  | none => Tx.fail { code := 403 }
  | some principal => next (ctx.withPrincipal principal)

/-- `AuthAPI`: the router, behind the tokens when there is authentication. -/
def authAPI (s : Service) (validated : Option Principal) (router : Handler) : Handler :=
  if s.useAuth = true then authorizedToken validated router else router

end Server
end Chronograf
