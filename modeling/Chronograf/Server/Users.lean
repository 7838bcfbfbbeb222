/-
# The handlers for users

`server/users.go`: a user is created, updated and removed through the store
the context gives, which is an organization's facade in the organization's
routes and the users store itself in the routes for super admins.

Key definitions: `newUser`, `removeUser`, `updateUser`, `setSuperAdmin`,
`validRoles`; `UserCall.handler`, `UserRoute.serve`, `UserMessage.run`.
-/
import Chronograf.Server.Auth

namespace Chronograf
namespace Server

/-- The body of a request; `roles` may be missing. -/
structure UserRequest where
  name : String
  provider : String
  scheme : String
  superAdmin : Bool
  roles : Option (List Role)
  deriving DecidableEq

namespace UserRequest

/-- The roles a request may give are those of the ladder and the wildcard. -/
def knownRoleNames : List String :=
  [memberRoleName, viewerRoleName, editorRoleName, adminRoleName, wildcardRoleName]

/-- `orgs` are the organizations of the roles before. -/
def checkRoles (orgs : List String) : List Role → Except Error Unit
  | [] => .ok ()
  | r :: rs =>
    if r.organization = "" then .error (.errorf "no organization was provided")
    else if r.organization ∈ orgs then
      .error (.errorf ("duplicate organization " ++ r.organization.quote ++ " in roles"))
    else if r.name ∈ knownRoleNames then checkRoles (r.organization :: orgs) rs
    else .error (.errorf ("Unknown role " ++ r.name ++
      ". Valid roles are 'member', 'viewer', 'editor', 'admin', and '*'"))

def validRoles (r : UserRequest) : Except Error Unit := checkRoles [] (r.roles.getD [])

/-- The request with the scheme that every user has for now. -/
def validCreate (r : UserRequest) : Except Error UserRequest :=
  if r.name = "" then .error (.errorf "Name required on Chronograf User request body")
  else if r.provider = "" then .error (.errorf "Provider required on Chronograf User request body")
  else if r.scheme = "" then .error (.errorf "Scheme required on Chronograf User request body")
  else do
    let r := { r with scheme := "oauth2" }
    r.validRoles
    pure r

def validUpdate (r : UserRequest) : Except Error (List Role) :=
  match r.roles with
  | none => .error (.errorf "No Roles to update")
  | some roles => do
    r.validRoles
    pure roles

end UserRequest

def newUserResponse (u : User) (org : String) : UserResponse where
  self :=
    if org ≠ "" then "/chronograf/v1/organizations/" ++ org ++ "/users/" ++ Nat.repr u.id
    else "/chronograf/v1/users/" ++ Nat.repr u.id
  id := u.id
  name := u.name
  provider := u.provider
  scheme := u.scheme
  superAdmin := u.superAdmin
  roles := u.roles

/-- Only a super admin may change who is one. -/
def setSuperAdmin (ctx : Context) (req : UserRequest) (user : User) : Except Error User :=
  if hasSuperAdminContext ctx = true then .ok { user with superAdmin := req.superAdmin }
  else if user.superAdmin ≠ req.superAdmin then
    .error (.errorf ("User does not have authorization required to set SuperAdmin status. " ++
      "See https://github.com/influxdata/chronograf/issues/2601 for more information."))
  else .ok user

/-- The roles, in organizations that exist, with the default role for the wildcard. -/
def validRoles (s : Service) (ctx : Context) : List Role → Tx Error Db (List Role)
  | [] => pure []
  | role :: rs => do
    let org ← (Store.organizations s.ids ctx).get ctx { id := role.organization }
    let role := if role.name = wildcardRoleName then { role with name := org.defaultRole } else role
    let rs ← validRoles s ctx rs
    pure (role :: rs)

/-- The user ID in the route. -/
def paramUserID (id : Param ℕ) : Tx Response Db ℕ :=
  Tx.ofExcept (id.mapError fun err => Response.error 400 ("invalid user id: " ++ err))

def newUser (s : Service) (body : Option UserRequest) (oid : String) : Handler := fun ctx => do
  let req ← decode body
  let req ← Tx.ofExcept (req.validCreate.mapError .invalidData)
  let serverCtx := serverContext ctx
  let cfg ← ((Store.config serverCtx).get serverCtx).mapError (.ofError 500)
  let roles ← (validRoles s serverCtx (req.roles.getD [])).mapError .invalidData
  let user : User := ⟨0, req.name, roles, req.provider, req.scheme, false⟩
  let req := if cfg.auth.superAdminNewUsers = true then { req with superAdmin := true } else req
  let user ← Tx.ofExcept ((setSuperAdmin ctx req user).mapError (.ofError 401))
  let res ← ((Store.users ctx).add ctx user).mapError (.ofError 400)
  let cu := newUserResponse res oid
  pure { code := 201, location := cu.self, body := [.user cu] }

def removeUser (id : Param ℕ) : Handler := fun ctx => do
  let id ← paramUserID id
  let u ← ((Store.users ctx).get ctx { id := id }).mapError (.ofError 404)
  ((Store.users ctx).delete ctx u).mapError (.ofError 400)
  pure { code := 204 }

/-- What an update may not change, and that nobody gives up being a super admin. -/
def checkUpdate (ctx : Context) (req : UserRequest) (u : User) : Except Response Unit :=
  if req.name ≠ "" ∧ req.name ≠ u.name then .error (.invalidData (.errorf "Cannot update Name"))
  else if req.provider ≠ "" ∧ req.provider ≠ u.provider then
    .error (.invalidData (.errorf "Cannot update Provider"))
  else if req.scheme ≠ "" ∧ req.scheme ≠ u.scheme then .error (.invalidData (.errorf "Cannot update Scheme"))
  else match hasUserContext ctx with
    | none => .error (.error 500 "failed to retrieve user from context")
    | some ctxUser =>
      if ctxUser.id = u.id ∧ u.superAdmin = true ∧ req.superAdmin = false then
        .error (.error 401 "user cannot modify their own SuperAdmin status")
      else .ok ()

def updateUser (s : Service) (body : Option UserRequest) (id : Param ℕ) (oid : String) : Handler := fun ctx => do
  let req ← decode body
  let id ← paramUserID id
  let reqRoles ← Tx.ofExcept (req.validUpdate.mapError .invalidData)
  let u ← ((Store.users ctx).get ctx { id := id }).mapError (.ofError 404)
  let serverCtx := serverContext ctx
  let roles ← (validRoles s serverCtx reqRoles).mapError .invalidData
  let u := { u with roles := roles }
  Tx.ofExcept (checkUpdate ctx req u)
  let u ← Tx.ofExcept ((setSuperAdmin ctx req u).mapError (.ofError 401))
  ((Store.users ctx).update ctx u).mapError (.ofError 400)
  let cu := newUserResponse u oid
  pure { code := 200, location := cu.self, body := [.user cu] }

/-! ### The routes (`server/mux.go`) -/

/-- A request that writes a user. -/
inductive UserCall
  | newUser (body : Option UserRequest)
  | removeUser (id : Param ℕ)
  | updateUser (body : Option UserRequest) (id : Param ℕ)

def UserCall.handler (s : Service) (oid : String) : UserCall → Handler
  | newUser body => Server.newUser s body oid
  | removeUser id => Server.removeUser id
  | updateUser body id => Server.updateUser s body id oid

/-- The users of an organization, for its admins, or all users, for super admins. -/
inductive UserRoute
  | organization (oid : String)
  | raw

def UserRoute.serve (s : Service) (call : UserCall) : UserRoute → Handler
  | organization oid => authorizedUser s adminRoleName (routeMatchesPrincipal s oid (call.handler s oid))
  | raw => authorizedUser s superAdminStatus (rawStoreAccess (call.handler s ""))

/-- A request for users: its token's principal, if the token is valid, its route, and what it asks for. -/
structure UserMessage where
  principal : Option Principal
  route : UserRoute
  call : UserCall

namespace UserMessage

def handler (s : Service) (m : UserMessage) : Handler := authAPI s m.principal (m.route.serve s m.call)

/-- The store after the request. -/
def after (s : Service) (db : Db) (m : UserMessage) : Db := (m.handler s).after {} db

/-- The store after the requests, handled one after the other. -/
def run (s : Service) (db : Db) (ms : List UserMessage) : Db := ms.foldl (after s) db

end UserMessage

end Server
end Chronograf
