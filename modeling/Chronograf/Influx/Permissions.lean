/-
# Permissions of InfluxDB users

`influx/permissions.go` and `influx/users.go`. A user's permissions are read
with two commands and changed with others, one for each permission that is
added or removed. Of a command this has what it says; its text is a matter of
its own. The database keeps for each user whether it is an administrator and
one privilege for each database, which `GRANT` sets and `REVOKE` subtracts
from. An error within the results of a command is seen by the commands that
look for it only.

Key definitions: `Permission`, `validPermissions`, `toPriv`, `toInfluxQL`,
`difference`, `Accounts`, `Client.get`, `Client.update`.
-/
import Chronograf.Lib.Remote
import Mathlib.Data.List.AList
import Mathlib.Logic.Function.Basic

namespace Chronograf

structure Permission where
  scope : String
  name : String
  allowed : List String
  deriving DecidableEq

def allScope : String := "all"

def dbScope : String := "database"

/-- `validPermissions` of `server/permissions.go`. -/
def validPermissions (perms : List Permission) : Except String Unit :=
  perms.forM fun perm =>
    if perm.scope ≠ allScope ∧ perm.scope ≠ dbScope then .error "Invalid permission scope"
    else if perm.scope = dbScope ∧ perm.name = "" then .error "Database scoped permission requires a name"
    else .ok ()

namespace Influx

/-! ### Commands -/

inductive Privilege
  | none
  | read
  | write
  | all
  deriving DecidableEq

def toPriv (a : List String) : Privilege :=
  let hasRead := "READ" ∈ a ∨ "ALL" ∈ a
  let hasWrite := "WRITE" ∈ a ∨ "ALL" ∈ a
  if hasWrite ∧ hasRead then .all else if hasWrite then .write else if hasRead then .read else .none

inductive Action
  | grant
  | revoke
  deriving DecidableEq

/-- `GRANT … TO` and `REVOKE … FROM`, on a database or of an administrator. -/
structure Command where
  action : Action
  privilege : Privilege
  on : Option String
  user : String

/-- The empty text is no command. -/
def toInfluxQL (action : Action) (username : String) (perm : Permission) : Option Command :=
  if perm.scope = allScope then some ⟨action, .all, none, username⟩
  else if perm.allowed.length = 0 then some ⟨action, .all, some perm.name, username⟩
  else if toPriv perm.allowed = .none then none
  else some ⟨action, toPriv perm.allowed, some perm.name, username⟩

def toRevoke (username : String) (perm : Permission) : Option Command := toInfluxQL .revoke username perm

def toGrant (username : String) (perm : Permission) : Option Command :=
  if perm.allowed.length = 0 then none else toInfluxQL .grant username perm

/-- Two permissions for the same. -/
def sameSubject (want got : Permission) : Bool := want.scope = got.scope ∧ want.name = got.name

/-- What is to be revoked and what is to be added. -/
def difference (wants haves : List Permission) : List Permission × List Permission :=
  let emptied want := haves.any (sameSubject want) && want.allowed = []
  (wants.filter emptied ++ haves.filter fun got => !wants.any (sameSubject · got), wants.filter fun want => !emptied want)

/-! ### Results -/

inductive Value
  | str (s : String)
  | bool (b : Bool)
  | other

/-- `chronograf.User`. -/
structure User where
  name : String
  passwd : String
  permissions : List Permission

def adminPerms : List Permission := [⟨allScope, "", ["ALL"]⟩]

/-- A row of other types is skipped. -/
def showResults.user : List Value → Option User
  | .str name :: .bool admin :: _ => some ⟨name, "", if admin then adminPerms else []⟩
  | _ => none

def showResults.users (rows : List (List Value)) : List User := rows.filterMap user

def showResults.permission : List Value → Option Permission
  | .str db :: .str priv :: _ =>
    if priv = "ALL PRIVILEGES" ∨ priv = "ALL" then some ⟨dbScope, db, ["WRITE", "READ"]⟩
    else if priv = "READ" then some ⟨dbScope, db, ["READ"]⟩
    else if priv = "WRITE" then some ⟨dbScope, db, ["WRITE"]⟩
    -- sometimes influx reports back NO PRIVILEGES
    else none
  | _ => none

def showResults.permissions (rows : List (List Value)) : List Permission := rows.filterMap permission

/-! ### The database -/

def Privilege.shown : Privilege → String
  | none => "NO PRIVILEGES"
  | read => "READ"
  | write => "WRITE"
  | all => "ALL PRIVILEGES"

def Privilege.subtract : Privilege → Privilege → Privilege
  | p, none => p
  | _, all => none
  | read, read => none
  | write, write => none
  | all, read => write
  | all, write => read
  | p, _ => p

structure Account where
  admin : Bool
  grants : AList fun _ : String => Privilege

def Account.privilege (acc : Account) (db : String) : Privilege := (acc.grants.lookup db).getD .none

def Account.apply (acc : Account) (c : Command) : Account :=
  match c.on, c.action with
  | none, .grant => { acc with admin := true }
  | none, .revoke => { acc with admin := false }
  | some db, .grant => { acc with grants := acc.grants.insert db c.privilege }
  | some db, .revoke => { acc with grants := acc.grants.insert db ((acc.privilege db).subtract c.privilege) }

abbrev Accounts := AList fun _ : String => Account

inductive QueryError
  | upstream
  | userNotFound
  | result

/-- A program of the client. -/
abbrev Client := Tx QueryError Accounts

namespace Client

/-- A command whose results are not looked at. -/
def query (c : Command) : Client Unit :=
  Tx.update .upstream fun s => .ok ((), match s.lookup c.user with
    | some acc => s.insert c.user (acc.apply c)
    | none => s)

def showUsers : Client (List User) :=
  Tx.view .upstream fun s => .ok (showResults.users (s.entries.map fun e => [.str e.1, .bool e.2.admin]))

def userPermissions (name : String) : Client (List Permission) :=
  Tx.view .upstream fun s => .ok (showResults.permissions (match s.lookup name with
    | some acc => acc.grants.entries.map fun e => [.str e.1, .str e.2.shown]
    | none => []))

/-- Passwords are not part of the state; an error in the results is returned. -/
def updatePassword (name : String) (_passwd : String) : Client Unit :=
  Tx.update .upstream fun s => if (s.lookup name).isSome then .ok ((), s) else .error .result

def grantPermission (username : String) (perm : Permission) : Client Unit :=
  match toGrant username perm with
  | some c => query c
  | none => pure ()

def revokePermission (username : String) (perm : Permission) : Client Unit :=
  match toRevoke username perm with
  | some c => query c
  | none => pure ()

def get (name : String) : Client User := do
  let users ← showUsers
  match users.find? (·.name = name) with
  | none => Tx.fail .userNotFound
  | some user => do
    let perms ← userPermissions user.name
    return { user with permissions := user.permissions ++ perms }

def update (u : User) : Client Unit :=
  if u.passwd ≠ "" then updatePassword u.name u.passwd
  else do
    let user ← get u.name
    let (revoke, add) := difference u.permissions user.permissions
    Tx.forEach add (grantPermission u.name)
    Tx.forEach revoke (revokePermission u.name)

end Client

end Influx
end Chronograf
