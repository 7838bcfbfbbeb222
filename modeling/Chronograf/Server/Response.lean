/-
# Handlers and their responses

A handler gets the context of its request, works at the store and answers.
Where the source writes a response and returns, the handler ends in that
response on the error side (`server/mux.go`: `Error`, `invalidData`,
`invalidJSON`, `unknownErrorWithMessage`).

Key definitions: `Response`, `Handler`, `Handler.after`, `paramID`.
-/
import Chronograf.Bolt.Client
import Mathlib.Algebra.Group.Int.Defs

namespace Chronograf
namespace Server

/-- What the response of a user handler says of a user. -/
structure UserResponse where
  self : String
  id : ℕ
  name : String
  provider : String
  scheme : String
  superAdmin : Bool
  roles : List Role
  deriving DecidableEq

/-- What the response of `Me` says of the user and its organizations. -/
structure MeResponse where
  self : String
  user : User
  organizations : List Organization
  currentOrganization : Organization
  deriving DecidableEq

structure OrganizationResponse where
  self : String
  organization : Organization
  deriving DecidableEq

/-- What a handler writes. Dashboards, cells and templates are written with links
and analysed queries besides; here they are themselves. -/
inductive Body
  | errorMessage (code : ℕ) (message : String)
  | user (res : UserResponse)
  | me (res : MeResponse)
  | noAuthMe (self : String)
  | organization (res : OrganizationResponse)
  | dashboards (ds : List Dashboard)
  | dashboard (d : Dashboard)
  | cells (cs : List DashboardCell)
  | cell (c : DashboardCell)
  | templates (ts : List Template)
  | template (t : Template)
  deriving DecidableEq

/-- The status, the location, and everything that is written. -/
structure Response where
  code : ℕ
  location : Option String := none
  body : List Body := []
  deriving DecidableEq

namespace Response

/-- `Error(w, code, msg)`. -/
def error (code : ℕ) (msg : String) : Response := { code := code, body := [.errorMessage code msg] }

def invalidData (err : Error) : Response := error 422 err.error

def invalidJSON : Response := error 400 "Unparsable JSON"

def unknownErrorWithMessage (err : Error) : Response := error 500 ("Unknown error: " ++ err.error)

/-- `notFound`, for an ID that is written as `id`. -/
def notFound (id : String) : Response := error 404 ("ID " ++ id ++ " not found")

/-- `Error(w, code, err.Error())`. -/
def ofError (code : ℕ) (err : Error) : Response := error code err.error

/-- A second response after one that was already sent: its body is appended, its
status and headers are too late. -/
def followedBy (first second : Response) : Response := { first with body := first.body ++ second.body }

end Response

/-- A handler, waiting for the context. -/
abbrev Handler := Context → Tx Response Db Response

/-- The store after the request was handled alone. -/
def Handler.after (h : Handler) (ctx : Context) (db : Db) : Db := ((h ctx).run db).2

/-- `json.NewDecoder(r.Body).Decode(&req)`; `none` is a body that does not decode. -/
def decode {α : Type} (body : Option α) : Tx Response Db α := Tx.ofExcept
  (match body with
    | some req => .ok req
    | none => .error Response.invalidJSON)

/-- What the source calls `httprouter.GetParamFromContext` and converts: the
number, or the text of the conversion's error. -/
abbrev Param (α : Type) := Except String α

/-- `strconv.Atoi`: decimal digits behind an optional sign, within 64 bits. -/
def atoi (s : String) : Option ℤ :=
  let digits (ds : List Char) : Option ℕ :=
    if ds ≠ [] ∧ ds.all Char.isDigit then some (Nat.ofDigitChars 10 ds 0) else none
  let n : Option ℤ := match s.toList with
    | '-' :: ds => (digits ds).map fun n => -(n : ℤ)
    | '+' :: ds => (digits ds).map fun n => (n : ℤ)
    | ds => (digits ds).map fun n => (n : ℤ)
  n.filter fun n => -2 ^ 63 ≤ n ∧ n < 2 ^ 63

/-- `paramID`, where the path has `param`. With the error comes the number -1. -/
def paramID (param : String) : Except Error ℤ :=
  match atoi param with
  | some id => .ok id
  | none => .error (.errorf ("Error converting ID " ++ param))

end Server
end Chronograf
