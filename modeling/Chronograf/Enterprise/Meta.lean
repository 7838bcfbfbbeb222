/-
# The meta service of a cluster

`enterprise/meta.go`: users and roles of InfluxDB Enterprise, each with its
permissions for each database, changed by actions that add to a set or remove
from it. To set permissions or the users of a role the client reads what is
there and posts the two differences. The service answers a request, refuses it,
or its reply is lost; the database of all databases is `""`.

Key definitions: `Permissions`, `Meta`, `difference`, `permissionsDifference`,
`setUserPerms`, `setRolePerms`, `setRoleUsers`.
-/
import Chronograf.Influx.Permissions
import Mathlib.Logic.Function.Basic

namespace Chronograf
namespace Enterprise

/-! ### Permissions -/

/-- `map[string][]string`: its keys, and the list under each. -/
structure Permissions where
  scopes : List String
  allowed : String → List String

namespace Permissions

def empty : Permissions := ⟨[], fun _ => []⟩

/-- `perms[scope] = allowed`. -/
def set (perms : Permissions) (scope : String) (allowed : List String) : Permissions where
  scopes := if scope ∈ perms.scopes then perms.scopes else perms.scopes ++ [scope]
  allowed := Function.update perms.allowed scope allowed

/-- The permission is in the list of the database. -/
def Has (perms : Permissions) (db p : String) : Prop := db ∈ perms.scopes ∧ p ∈ perms.allowed db

instance (perms : Permissions) (db p : String) : Decidable (perms.Has db p) :=
  inferInstanceAs (Decidable (_ ∧ _))

/-- The permissions of all databases, one by one. -/
def pairs (perms : Permissions) : List (String × String) :=
  perms.scopes.flatMap fun db => (perms.allowed db).map fun p => (db, p)

end Permissions

/-- What is to be removed and what is to be added. -/
def difference (wants haves : List String) : List String × List String :=
  (haves.filter (· ∉ wants), wants.filter (· ∉ haves))

/-- The same for each database; one that only one of the maps has is removed or
added as a whole. The loop over `wants` is written once for each map it fills. -/
def permissionsDifference (wants haves : Permissions) : Permissions × Permissions :=
  let revoke := wants.scopes.foldl (fun m scope =>
    if scope ∉ haves.scopes then m else m.set scope (difference (wants.allowed scope) (haves.allowed scope)).1) .empty
  let add := wants.scopes.foldl (fun m scope =>
    m.set scope (if scope ∈ haves.scopes then (difference (wants.allowed scope) (haves.allowed scope)).2
      else wants.allowed scope)) .empty
  (haves.scopes.foldl (fun m scope => if scope ∈ wants.scopes then m else m.set scope (haves.allowed scope)) revoke, add)

/-! ### The service -/

/-- Permissions as a set of databases with a permission. -/
abbrev Grants := List (String × String)

structure Role where
  permissions : Grants
  users : List String

structure Meta where
  users : AList fun _ : String => Grants
  roles : AList fun _ : String => Role

inductive Error
  | noUserFound
  | noRoleFound
  | roleExists
  | upstream
  deriving DecidableEq

/-- How the service prints a set of permissions as a map. -/
structure Printer where
  print : Grants → Permissions
  has_print : ∀ {g db p}, (print g).Has db p ↔ (db, p) ∈ g

namespace Meta

def setUser (s : Meta) (name : String) (g : Grants) : Meta := { s with users := s.users.insert name g }

def setRole (s : Meta) (name : String) (r : Role) : Meta := { s with roles := s.roles.insert name r }

end Meta

/-- A program of the client. -/
abbrev Client := Tx Error Meta

/-- An action on the permissions of a user. -/
def postUser (name : String) (act : Grants → Grants) : Client Unit :=
  Tx.update .upstream fun s => match s.users.lookup name with
    | some g => .ok ((), s.setUser name (act g))
    | none => .error .noUserFound

/-- An action on a role. -/
def postRole (name : String) (act : Role → Role) : Client Unit :=
  Tx.update .upstream fun s => match s.roles.lookup name with
    | some r => .ok ((), s.setRole name (act r))
    | none => .error .noRoleFound

/-- The actions `add-permissions` and `remove-permissions`. -/
def grant (perms : Permissions) (g : Grants) : Grants := g ++ perms.pairs

def withhold (perms : Permissions) (g : Grants) : Grants := g.filter (· ∉ perms.pairs)

variable (P : Printer)

/-! ### Its client -/

/-- `MetaClient.User`. -/
def user (name : String) : Client Permissions :=
  Tx.view .upstream fun s => match s.users.lookup name with
    | some g => .ok (P.print g)
    | none => .error .noUserFound

/-- `MetaClient.Role`: its permissions and users. -/
def role (name : String) : Client (Permissions × List String) :=
  Tx.view .upstream fun s => match s.roles.lookup name with
    | some r => .ok (P.print r.permissions, r.users)
    | none => .error .noRoleFound

/-- `MetaClient.UserRoles`: the roles of each user. -/
def userRoles : Client (String → List String) :=
  Tx.view .upstream fun s => .ok fun u => s.roles.entries.flatMap fun r => (r.2.users.filter (· = u)).map fun _ => r.1

/-- The action `change-password`; passwords are not part of the state. -/
def changePassword (name : String) : Client Unit := postUser name fun g => g

/-- Nothing is posted without keys. -/
def postUnlessEmpty (perms : Permissions) (post : Client Unit) : Client Unit :=
  if perms.scopes.length > 0 then post else pure ()

/-- A part of a request that may be missing. -/
def ifGiven {α : Type} (part : Option α) (f : α → Client Unit) : Client Unit :=
  match part with
  | some a => f a
  | none => pure ()

def removeUserPerms (name : String) (perms : Permissions) : Client Unit := postUser name (withhold perms)

def setUserPerms (name : String) (perms : Permissions) : Client Unit := do
  let have_ ← user P name
  let (revoke, add) := permissionsDifference perms have_
  postUnlessEmpty revoke (removeUserPerms name revoke)
  postUnlessEmpty add (postUser name (grant add))

def createRole (name : String) : Client Unit :=
  Tx.update .upstream fun s => match s.roles.lookup name with
    | some _ => .error .roleExists
    | none => .ok ((), s.setRole name ⟨[], []⟩)

def removeRolePerms (name : String) (perms : Permissions) : Client Unit :=
  postRole name fun r => { r with permissions := withhold perms r.permissions }

def setRolePerms (name : String) (perms : Permissions) : Client Unit := do
  let (have_, _) ← role P name
  let (revoke, add) := permissionsDifference perms have_
  postUnlessEmpty revoke (removeRolePerms name revoke)
  postUnlessEmpty add (postRole name fun r => { r with permissions := grant add r.permissions })

def addRoleUsers (name : String) (users : List String) : Client Unit :=
  if users.length = 0 then pure ()
  else postRole name fun r => { r with users := r.users ++ users }

def removeRoleUsers (name : String) (users : List String) : Client Unit :=
  if users.length = 0 then pure ()
  else postRole name fun r => { r with users := r.users.filter (· ∉ users) }

def setRoleUsers (name : String) (users : List String) : Client Unit := do
  let (_, have_) ← role P name
  let (revoke, add) := difference users have_
  removeRoleUsers name revoke
  addRoleUsers name add

/-! ### The stores -/

/-- The key of a permission's database. -/
def keyOf (perm : Permission) : String := if perm.scope = allScope then "" else perm.name

def toEnterprise (perms : List Permission) : Permissions :=
  perms.foldl (fun res perm => res.set (keyOf perm) perm.allowed) .empty

/-- The user of a request: roles by their names; `nil` is not the empty list. -/
structure User where
  name : String
  passwd : String
  roles : Option (List String)
  permissions : Option (List Permission)

/-- The role of a request: users by their names. -/
structure RoleRequest where
  name : String
  permissions : Option (List Permission)
  users : Option (List String)

namespace UserStore

def update (u : User) : Client Unit :=
  if u.passwd ≠ "" then changePassword u.name
  else
    let permissions := ifGiven u.permissions fun perms => setUserPerms P u.name (toEnterprise perms)
    match u.roles with
    | none => permissions
    | some want => Tx.attempt userRoles >>= fun
      -- the error is not returned
      | .error _ => pure ()
      | .ok roles =>
        let (revoke, add) := difference want (roles u.name)
        do
          Tx.forEach add fun name => addRoleUsers name [u.name]
          Tx.forEach revoke fun name => removeRoleUsers name [u.name]
          permissions

end UserStore

namespace RolesStore

def add (r : RoleRequest) : Client RoleRequest := do
  createRole r.name
  setRolePerms P r.name (toEnterprise (r.permissions.getD []))
  setRoleUsers P r.name (r.users.getD [])
  return r

def update (r : RoleRequest) : Client Unit := do
  ifGiven r.permissions fun perms => setRolePerms P r.name (toEnterprise perms)
  ifGiven r.users fun users => setRoleUsers P r.name users

end RolesStore

end Enterprise
end Chronograf
