/-
# The context of a request

What the middlewares put on a request's context and the stores read from it
(`server/context.go`, `server/stores.go`, `organizations/organizations.go`):
whether the server itself makes the request, the organization, the user and
its role, and the principal of the session.
-/
import Chronograf.Types

namespace Chronograf

/-- Whoever the session belongs to, as the authenticator reads it from the token. -/
structure Principal where
  subject : String
  issuer : String
  organization : String
  group : String
  deriving DecidableEq

/-- The user the principal stands for. -/
def Principal.query (p : Principal) (scheme : String) : UserQuery :=
  { name := p.subject, provider := p.issuer, scheme := scheme }

/-- The values on a context; a key that was never set is `none`. -/
structure Context where
  server : Option Bool := none
  organization : Option String := none
  role : Option String := none
  user : Option User := none
  principal : Option Principal := none
  deriving DecidableEq

namespace Context

/-- `context.WithValue(ctx, organizations.ContextKey, org)`. -/
def withOrganization (ctx : Context) (org : String) : Context := { ctx with organization := some org }

/-- `context.WithValue(ctx, roles.ContextKey, role)`. -/
def withRole (ctx : Context) (role : String) : Context := { ctx with role := some role }

/-- `context.WithValue(ctx, UserContextKey, u)`. -/
def withUser (ctx : Context) (u : User) : Context := { ctx with user := some u }

/-- `context.WithValue(ctx, oauth2.PrincipalKey, p)`. -/
def withPrincipal (ctx : Context) (p : Principal) : Context := { ctx with principal := some p }

end Context

/-- The context with which the server reads for itself. -/
def serverContext (ctx : Context) : Context := { ctx with server := some true }

def hasServerContext (ctx : Context) : Bool := ctx.server.getD false

/-- The organization on the context, if it is not blank. -/
def hasOrganizationContext (ctx : Context) : Option String :=
  match ctx.organization with
  | some orgID => if orgID = "" then none else some orgID
  | none => none

def hasUserContext (ctx : Context) : Option User := ctx.user

def hasSuperAdminContext (ctx : Context) : Bool :=
  match hasUserContext ctx with
  | some u => u.superAdmin
  | none => false

/-- What every method of the facades checks first. -/
def validOrganization (ctx : Context) : Except Error Unit :=
  match ctx.organization with
  | none => .error (.errorf "expected organization key to be a string")
  | some orgID => if orgID = "" then .error (.errorf "expected organization key to be set") else .ok ()

@[simp] theorem hasServerContext_serverContext (ctx : Context) :
    hasServerContext (serverContext ctx) = true := rfl

theorem validOrganization_of_has {ctx : Context} {org : String}
    (h : hasOrganizationContext ctx = some org) : validOrganization ctx = .ok () := by
  unfold hasOrganizationContext at h
  unfold validOrganization
  split at h
  · split at h <;> simp_all
  · simp at h

end Chronograf
