/-
# The facade for users

`organizations/users.go`. All users are in one store, with the roles they
have in all organizations; the facade of an organization shows and changes
the roles in that organization only.

Key definitions: `Organizations.UsersStore.get`, `add`, `delete`, `update`,
`all`, `num`; `rolesIn`, `rolesOutside`.
-/
import Chronograf.Stores

namespace Chronograf

/-- The user's roles in the organization. -/
def User.rolesIn (u : User) (organization : String) : List Role :=
  u.roles.filter fun r => r.organization = organization

/-- The user's roles in all other organizations. -/
def User.rolesOutside (u : User) (organization : String) : List Role :=
  u.roles.filter fun r => r.organization ≠ organization

namespace Organizations

/-- Every role has an organization, the one of the facade, and a name. -/
def validOrganizationRoles (orgID : String) (u : User) : Except Error Unit :=
  go u.roles
where
  go : List Role → Except Error Unit
    | [] => .ok ()
    | r :: rs =>
      if r.organization = "" then .error (.errorf "user role must have an Organization")
      else if r.organization ≠ orgID then
        .error (.errorf ("organizationID " ++ r.organization ++ " does not match " ++ orgID))
      else if r.name = "" then .error (.errorf "user role must have a Name")
      else go rs

namespace UsersStore

variable {σ : Type} (s : Chronograf.UsersStore σ) (organization : String)

/-- The user with its roles in the organization; without one there it is not found. -/
def get (ctx : Context) (q : UserQuery) : Tx Error σ User := do
  Tx.ofExcept (validOrganization ctx)
  let usr ← s.get ctx q
  let roles := usr.rolesIn organization
  if roles.length = 0 then Tx.fail .errUserNotFound
  else pure { usr with roles := roles }

/-- A user the store does not know is added to it. One it knows, without a
role in the organization, is given the new roles on top of its own. -/
def add (ctx : Context) (u : User) : Tx Error σ User := do
  Tx.ofExcept (validOrganization ctx)
  Tx.ofExcept (validOrganizationRoles organization u)
  match ← (s.get ctx { name := u.name, provider := u.provider, scheme := u.scheme }).attempt with
  | .error .errUserNotFound => s.add ctx u
  | .error err => Tx.fail err
  | .ok usr =>
    let roles := usr.rolesOutside organization
    let numRolesInOrganization := usr.roles.length - roles.length
    if numRolesInOrganization > 0 then Tx.fail .errUserAlreadyExists
    else do
      let usr := { usr with roles := roles ++ u.roles }
      let usr := if u.superAdmin = true then { usr with superAdmin := true } else usr
      s.update ctx usr
      pure { u with id := usr.id }

/-- The user keeps its roles in the other organizations only. -/
def delete (ctx : Context) (usr : User) : Tx Error σ Unit := do
  Tx.ofExcept (validOrganization ctx)
  let u ← s.get ctx { id := usr.id }
  s.update ctx { u with roles := u.rolesOutside organization }

/-- The user that was passed in, with the stored roles in the other
organizations before its own. -/
def update (ctx : Context) (usr : User) : Tx Error σ Unit := do
  Tx.ofExcept (validOrganization ctx)
  Tx.ofExcept (validOrganizationRoles organization usr)
  let u ← s.get ctx { id := usr.id }
  s.update ctx { usr with roles := u.rolesOutside organization ++ usr.roles }

/-- What the facade shows of a list of users. -/
def visible (usrs : List User) : List User :=
  usrs.filterMap fun usr =>
    let roles := usr.rolesIn organization
    if roles.length ≠ 0 then some { usr with roles := roles } else none

def all (ctx : Context) : Tx Error σ (List User) := do
  Tx.ofExcept (validOrganization ctx)
  let usrs ← s.all ctx
  pure (visible organization usrs)

def num (ctx : Context) : Tx Error σ ℕ := do
  Tx.ofExcept (validOrganization ctx)
  let usrs ← all s organization ctx
  pure usrs.length

end UsersStore

/-- The facade of the organization on the store `s`. -/
def newUsersStore {σ : Type} (s : Chronograf.UsersStore σ) (org : String) : Chronograf.UsersStore σ where
  all := UsersStore.all s org
  add := UsersStore.add s org
  delete := UsersStore.delete s org
  get := UsersStore.get s org
  update := UsersStore.update s org
  num := UsersStore.num s org

section Methods

variable {σ : Type} (s : Chronograf.UsersStore σ) (org : String) (ctx : Context) (u : User)

@[simp] theorem newUsersStore_add : (newUsersStore s org).add ctx u = UsersStore.add s org ctx u := rfl

@[simp] theorem newUsersStore_delete : (newUsersStore s org).delete ctx u = UsersStore.delete s org ctx u := rfl

@[simp] theorem newUsersStore_update : (newUsersStore s org).update ctx u = UsersStore.update s org ctx u := rfl

end Methods

end Organizations
end Chronograf
