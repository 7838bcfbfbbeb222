/-
# Providers

The OAuth2 providers of `oauth2/`: what each makes of the replies of its
service, asked for who a user is and for the user's group. Every request has a
reply of its own, which may be an error.

Key definitions: `Provider`, `Generic.provider`, `Auth0.provider`,
`Github.provider`, `Google.provider`, `Heroku.provider`.
-/
import Mathlib.Data.List.Basic
import Mathlib.Data.List.Infix

namespace Chronograf
namespace Oauth2

/-- A value in a JSON object; all that counts is whether it is a string. -/
inductive Value
  | string (s : String)
  | other
  deriving DecidableEq

/-- A JSON object. -/
abbrev Object := String → Option Value

/-- A reply, or the error that takes its place. -/
abbrev Answer (α : Type) := Except String α

/-- The methods of a provider, applied to the replies of its service; `none` is a
lookup that still goes on. -/
structure Provider where
  name : String
  principalID : Option (Answer String)
  group : Option (Answer String)
  /-- The user and the group in the claims of an id_token, of an `ExtendedProvider`. -/
  fromClaims : Option ((Object → Answer String) × (Object → Answer String))

def errOrgMembership : String := "Not a member of the required organization"

/-- `strings.Split(email, "@")`. -/
def splitEmail (email : String) : List String := (email.toList.splitOn '@').map String.ofList

/-! ### OpenID -/

/-- An e-mail address of a user. -/
structure UserEmail where
  email : Option String
  primary : Option Bool
  verified : Option Bool

structure Generic where
  pageName : String
  domains : List String
  apiKey : String

/-- The replies to the lookups of the user and of the group. -/
structure GenericReplies where
  userInfo : Answer Object
  emails : Answer (List (Option UserEmail))
  groupUserInfo : Answer Object
  groupEmails : Answer (List (Option UserEmail))

/-- `emailDomain` is a suffix of the address. -/
def ofDomain (requiredDomains : List String) (email : String) : Bool :=
  requiredDomains.any fun domain => decide ('@' :: domain.toList <:+ email.toList)

namespace Generic

variable (g : Generic)

def name : String := if g.pageName = "" then "generic" else g.pageName

/-- The first address that says whether it is primary and verified. -/
def primaryEmail : List (Option UserEmail) → Answer String
  | [] => .error "No primary email address"
  | some ⟨some email, some _, some _⟩ :: _ => .ok email
  | _ :: emails => primaryEmail emails

/-- The e-mail address in the user's information, or else in the list of addresses. -/
def email (userInfo : Answer Object) (emails : Answer (List (Option UserEmail))) : Answer String := do
  let res ← userInfo
  match res g.apiKey with
  | some (.string email) => if email = "" then emails >>= primaryEmail else .ok email
  | _ => emails >>= primaryEmail

def principalID (r : GenericReplies) : Answer String := do
  let email ← g.email r.userInfo r.emails
  if g.domains.length > 0 ∧ ofDomain g.domains email = false then .error "Not a member of required domain"
  else .ok email

def group (r : GenericReplies) : Answer String := do
  let email ← g.email r.groupUserInfo r.groupEmails
  match splitEmail email with
  | [_, domain] => .ok domain
  | _ => .error ("malformed email address, expected " ++ email ++ " to contain @ symbol")

def principalIDFromClaims (claims : Object) : Answer String :=
  match claims g.apiKey with
  | some (.string id) => .ok id
  | _ => .error ("no claim for " ++ g.apiKey)

def groupFromClaims (claims : Object) : Answer String :=
  match claims g.apiKey with
  | some (.string id) =>
    match splitEmail id with
    | [_, domain] => .ok domain
    | _ => .ok "DEFAULT"
  | _ => .error ("no claim for " ++ g.apiKey)

def provider (r : GenericReplies) : Provider :=
  { name := g.name
    principalID := some (g.principalID r)
    group := some (g.group r)
    fromClaims := some (g.principalIDFromClaims, g.groupFromClaims) }

end Generic

/-! ### Auth0 -/

/-- A generic provider whose users may have to be in an organization. -/
structure Auth0 extends Generic where
  organizations : List String

/-- An account at a service: what it says of the user's e-mail address and organization. -/
structure Account where
  email : String
  organization : String

structure AccountReplies where
  account : Answer Account
  groupAccount : Answer Account

namespace Auth0

variable (a : Auth0)

def principalID (r : AccountReplies) : Answer String := do
  let act ← r.account
  if a.organizations.length > 0 ∧ act.organization ∉ a.organizations then .error errOrgMembership
  else .ok act.email

def group (r : AccountReplies) : Answer String := do
  let act ← r.groupAccount
  return act.organization

/-- What is read from an id_token is the generic provider's. -/
def provider (r : AccountReplies) : Provider :=
  { name := a.name
    principalID := some (a.principalID r)
    group := some (group r)
    fromClaims := some (a.principalIDFromClaims, a.groupFromClaims) }

end Auth0

/-! ### GitHub -/

structure Github where
  orgs : List String

/-- A page of a user's organizations, by their logins. -/
structure OrgPage where
  logins : List (Option String)
  nextPage : ℕ

structure GithubReplies where
  orgs : List (Answer OrgPage)
  emails : Answer (List (Option UserEmail))
  groupOrgs : List (Answer OrgPage)

namespace Github

/-- The first page is asked for, again and again, until it is the last. -/
def getOrganizations : List (Answer OrgPage) → Option (Answer (List (Option String)))
  | [] => none
  | .error err :: _ => some (.error err)
  | .ok page :: pages =>
    if page.nextPage = 0 then some (.ok page.logins)
    else (getOrganizations pages).map fun rest => rest.map (page.logins ++ ·)

def isMember (requiredOrgs : List String) (userOrgs : List (Option String)) : Bool :=
  requiredOrgs.any fun requiredOrg => some requiredOrg ∈ userOrgs

def primaryEmail : List (Option UserEmail) → Answer String
  | [] => .error "No primary email address"
  | some ⟨some email, some true, some true⟩ :: _ => .ok email
  | _ :: emails => primaryEmail emails

/-- Without an address the user is the empty one. -/
def emailOrEmpty (r : GithubReplies) : String :=
  match r.emails >>= primaryEmail with
  | .ok email => email
  | .error _ => ""

variable (g : Github)

/-- Who is not a member is the empty user. -/
def principalID (r : GithubReplies) : Option (Answer String) :=
  if g.orgs.length > 0 then
    match getOrganizations r.orgs with
    | none => none
    | some (.error err) => some (.error err)
    | some (.ok orgs) => if isMember g.orgs orgs = false then some (.ok "") else some (.ok (emailOrEmpty r))
  else some (.ok (emailOrEmpty r))

def group (r : GithubReplies) : Option (Answer String) :=
  (getOrganizations r.groupOrgs).map fun orgs => orgs.map fun logins => ",".intercalate (logins.filterMap id)

def provider (r : GithubReplies) : Provider :=
  { name := "github", principalID := g.principalID r, group := group r, fromClaims := none }

end Github

/-! ### Google -/

structure Google where
  domains : List String

/-- The organization of an account is its `hd`. -/
def Google.principalID (g : Google) (r : AccountReplies) : Answer String := do
  let info ← r.account
  if g.domains.length = 0 then .ok info.email
  else if info.organization ∈ g.domains then .ok info.email
  else .error "Not in required domain"

def Google.group (r : AccountReplies) : Answer String := do
  let info ← r.groupAccount
  return info.organization

def Google.provider (g : Google) (r : AccountReplies) : Provider :=
  { name := "google", principalID := some (g.principalID r), group := some (Google.group r), fromClaims := none }

/-! ### Heroku -/

structure Heroku where
  organizations : List String

/-- The organization of an account is the name of its default one. -/
def Heroku.principalID (h : Heroku) (r : AccountReplies) : Answer String := do
  let account ← r.account
  if h.organizations.length > 0 then
    if account.organization ∈ h.organizations then .ok account.email else .error errOrgMembership
  else .ok account.email

def Heroku.group (r : AccountReplies) : Answer String := do
  let account ← r.groupAccount
  return account.organization

def Heroku.provider (h : Heroku) (r : AccountReplies) : Provider :=
  { name := "heroku", principalID := some (h.principalID r), group := some (Heroku.group r), fromClaims := none }

end Oauth2
end Chronograf
