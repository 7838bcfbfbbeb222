/-
# The handlers for organizations

`server/organizations.go`. Who creates an organization is added to it as its
admin; when that fails, the organization is deleted again.

Key definitions: `newOrganization`, `updateOrganization`, `removeOrganization`.
-/
import Chronograf.Server.Auth

namespace Chronograf
namespace Server

structure OrganizationRequest where
  name : String
  defaultRole : String
  deriving DecidableEq

namespace OrganizationRequest

/-- The request with its default role; a missing one is the member's. -/
def validDefaultRole (r : OrganizationRequest) : Except Error OrganizationRequest :=
  let r := if r.defaultRole = "" then { r with defaultRole := memberRoleName } else r
  if r.defaultRole ∈ [memberRoleName, viewerRoleName, editorRoleName, adminRoleName] then .ok r
  else .error (.errorf "default role must be member, viewer, editor, or admin")

def validCreate (r : OrganizationRequest) : Except Error OrganizationRequest :=
  if r.name = "" then .error (.errorf "Name required on Chronograf Organization request body")
  else r.validDefaultRole

def validUpdate (r : OrganizationRequest) : Except Error OrganizationRequest :=
  if r.name = "" ∧ r.defaultRole = "" then .error (.errorf "No fields to update")
  else if r.defaultRole ≠ "" then r.validDefaultRole
  else .ok r

end OrganizationRequest

def newOrganizationResponse (o : Organization) : OrganizationResponse :=
  ⟨"/chronograf/v1/organizations/" ++ o.id, o⟩

/-- The attempt to delete an organization to which nobody could be added. -/
def cleanup (s : Service) (ctx : Context) (o : Organization) (msg : String) : Tx Response Db Response := do
  let _ ← ((Store.organizations s.ids ctx).delete ctx o).attempt
  Tx.fail (.error 500 msg)

def newOrganization (s : Service) (body : Option OrganizationRequest) : Handler := fun ctx => do
  let req ← decode body
  let req ← Tx.ofExcept (req.validCreate.mapError .invalidData)
  let res ← ((Store.organizations s.ids ctx).add ctx ⟨"", req.name, req.defaultRole⟩).mapError (.ofError 400)
  match hasUserContext ctx with
  | none => cleanup s ctx res "failed to retrieve user from context"
  | some user => do
    let user := { user with roles := [⟨adminRoleName, res.id⟩] }
    let orgCtx := ctx.withOrganization res.id
    match ← ((Store.users orgCtx).add orgCtx user).attempt with
    | .error _ => cleanup s ctx res "failed to add user to organization"
    | .ok _ =>
      let co := newOrganizationResponse res
      pure { code := 201, location := co.self, body := [.organization co] }

def updateOrganization (s : Service) (body : Option OrganizationRequest) (oid : String) : Handler := fun ctx => do
  let req ← decode body
  let req ← Tx.ofExcept (req.validUpdate.mapError .invalidData)
  let org ← ((Store.organizations s.ids ctx).get ctx { id := oid }).mapError (.ofError 400)
  let org := if req.name ≠ "" then { org with name := req.name } else org
  let org := if req.defaultRole ≠ "" then { org with defaultRole := req.defaultRole } else org
  ((Store.organizations s.ids ctx).update ctx org).mapError (.ofError 400)
  let res := newOrganizationResponse org
  pure { code := 200, location := res.self, body := [.organization res] }

def removeOrganization (s : Service) (oid : String) : Handler := fun ctx => do
  let org ← ((Store.organizations s.ids ctx).get ctx { id := oid }).mapError (.ofError 404)
  ((Store.organizations s.ids ctx).delete ctx org).mapError (.ofError 400)
  pure { code := 204 }

end Server
end Chronograf
