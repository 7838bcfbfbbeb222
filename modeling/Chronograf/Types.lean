/-
# The records chronograf stores

The parts of `chronograf.go` that the stores and the handlers read: users and
their roles, sources, servers, organizations, mappings, the configuration,
and the errors. A user's password and permissions and a role's permissions
and users are not here: the encoding of a user leaves them out.
-/
import Chronograf.Lib.Bucket
import Mathlib.Data.String.Basic

namespace Chronograf

/-- The errors: those of `chronograf.go` that code compares against, the ones
made by `fmt.Errorf`, and a transaction the storage failed to run. -/
inductive Error
  | errSourceNotFound
  | errServerNotFound
  | errDashboardNotFound
  | errUserNotFound
  | errUserAlreadyExists
  | errOrganizationNotFound
  | errMappingNotFound
  | errOrganizationAlreadyExists
  | errCannotDeleteDefaultOrganization
  | errConfigNotFound
  | errInvalidAxis
  | errInvalidColorType
  | errInvalidColor
  | errInvalidLegend
  | errInvalidLegendType
  | errInvalidLegendOrient
  | errorf (text : String)
  | storage
  deriving DecidableEq

/-- `err.Error()`. -/
def Error.error : Error → String
  | errSourceNotFound => "source not found"
  | errServerNotFound => "server not found"
  | errDashboardNotFound => "dashboard not found"
  | errUserNotFound => "user not found"
  | errUserAlreadyExists => "user already exists"
  | errOrganizationNotFound => "organization not found"
  | errMappingNotFound => "mapping not found"
  | errOrganizationAlreadyExists => "organization already exists"
  | errCannotDeleteDefaultOrganization => "cannot delete default organization"
  | errConfigNotFound => "cannot find configuration"
  | errInvalidAxis => "Unexpected axis in cell. Valid axes are 'x', 'y', and 'y2'"
  | errInvalidColorType =>
    "Invalid color type. Valid color types are 'min', 'max', 'threshold', 'text', and 'background'"
  | errInvalidColor => "Invalid color. Accepted color format is #RRGGBB"
  | errInvalidLegend => "Invalid legend. Both type and orientation must be set"
  | errInvalidLegendType => "Invalid legend type. Valid legend type is 'static'"
  | errInvalidLegendOrient =>
    "Invalid orientation type. Valid orientation types are 'top', 'bottom', 'right', 'left'"
  | errorf text => text
  | storage => "database error"

/-! ### Users -/

/-- A role in an organization. -/
structure Role where
  name : String
  organization : String
  deriving DecidableEq

structure User where
  id : ℕ
  name : String
  roles : List Role
  provider : String
  scheme : String
  superAdmin : Bool
  deriving DecidableEq

/-- What identifies a user to whoever logs in. -/
def User.login (u : User) : String × String × String := (u.name, u.provider, u.scheme)

/-- What a user may be looked up by: the ID, or name, provider and scheme. -/
structure UserQuery where
  id : Option ℕ := none
  name : Option String := none
  provider : Option String := none
  scheme : Option String := none
  deriving DecidableEq

/-! ### Roles (`roles/roles.go`) -/

def memberRoleName : String := "member"
def viewerRoleName : String := "viewer"
def editorRoleName : String := "editor"
def adminRoleName : String := "admin"
def superAdminStatus : String := "superadmin"
/-- The server puts the organization's default role in its place. -/
def wildcardRoleName : String := "*"

/-! ### Resources of an organization -/

structure Source where
  id : ℤ
  name : String
  type : String
  username : String
  password : String
  sharedSecret : String
  url : String
  metaURL : String
  insecureSkipVerify : Bool
  default : Bool
  telegraf : String
  organization : String
  role : String
  defaultRP : String
  deriving DecidableEq

/-- A server; its metadata as the JSON text it is stored as. -/
structure Server where
  id : ℤ
  srcID : ℤ
  name : String
  username : String
  password : String
  url : String
  insecureSkipVerify : Bool
  active : Bool
  organization : String
  type : String
  metadata : String
  deriving DecidableEq

/-! ### Organizations, mappings, configuration -/

structure Organization where
  id : String
  name : String
  defaultRole : String
  deriving DecidableEq

/-- An organization is looked up by its ID if there is one, else by its name. -/
structure OrganizationQuery where
  id : Option String := none
  name : Option String := none
  deriving DecidableEq

def mappingWildcard : String := "*"

structure Mapping where
  id : String
  organization : String
  provider : String
  scheme : String
  providerOrganization : String
  deriving DecidableEq

structure AuthConfig where
  superAdminNewUsers : Bool
  deriving DecidableEq

structure Config where
  auth : AuthConfig
  deriving DecidableEq

/-- How a column of the log viewer is shown. -/
structure ColumnEncoding where
  type : String
  value : String
  name : String := ""
  deriving DecidableEq

structure LogViewerColumn where
  name : String
  position : ℤ
  encodings : List ColumnEncoding
  deriving DecidableEq

structure LogViewerConfig where
  columns : List LogViewerColumn
  deriving DecidableEq

structure OrganizationConfig where
  organizationID : String
  logViewer : LogViewerConfig
  deriving DecidableEq

/-! ### Keys

Users, sources and servers are stored under the eight bytes of their number,
organizations and mappings under their ID, which `fmt.Sprintf("%d", seq)`
makes from the sequence; an organization's configuration is stored under the
organization's. -/

instance : Sequenced ℕ where
  ofSeq := id
  blank _ := false
  ofSeq_injective := Function.injective_id
  not_blank_ofSeq _ := by simp

instance : Sequenced ℤ where
  ofSeq n := n
  blank _ := false
  ofSeq_injective _ _ := Int.ofNat_inj.mp
  not_blank_ofSeq _ := by simp

/-- Different numbers have different decimal texts. -/
theorem repr_injective : Function.Injective Nat.repr := by
  intro m n h
  have hd : Nat.toDigits 10 m = Nat.toDigits 10 n := by rw [← Nat.toList_repr, ← Nat.toList_repr, h]
  rw [← @Nat.ofDigitChars_ten_toDigits m, hd, Nat.ofDigitChars_ten_toDigits]

theorem minus_notMem_repr (n : ℕ) : '-' ∉ (Nat.repr n).toList := by
  rw [Nat.toList_repr]
  intro h
  have hdigit := Nat.isDigit_of_mem_toDigits (by decide) (by decide) h
  exact absurd hdigit (by decide)

/-- Different integers have different decimal texts. -/
theorem intRepr_injective : Function.Injective Int.repr := by
  have hmixed : ∀ m n : ℕ, Nat.repr m ≠ "-" ++ Nat.repr (n + 1) := by
    intro m n h
    apply minus_notMem_repr m
    rw [h, String.toList_append]
    simp
  intro a b h
  cases a with
  | ofNat m =>
    cases b with
    | ofNat n => exact congrArg Int.ofNat (repr_injective h)
    | negSucc n => exact absurd h (hmixed m n)
  | negSucc m =>
    cases b with
    | ofNat n => exact absurd h.symm (hmixed n m)
    | negSucc n =>
      have h' : "-" ++ Nat.repr (m + 1) = "-" ++ Nat.repr (n + 1) := h
      have hmn := repr_injective ((String.append_right_inj _).mp h')
      exact congrArg Int.negSucc (Nat.succ_injective hmn)

instance : Sequenced String where
  ofSeq := Nat.repr
  blank s := s = ""
  ofSeq_injective := repr_injective
  not_blank_ofSeq n := by simp

instance : Keyed User ℕ := ⟨User.id⟩
instance : Keyed Source ℤ := ⟨Source.id⟩
instance : Keyed Server ℤ := ⟨Server.id⟩
instance : Keyed Organization String := ⟨Organization.id⟩
instance : Keyed Mapping String := ⟨Mapping.id⟩
instance : Keyed OrganizationConfig String := ⟨OrganizationConfig.organizationID⟩

@[simp] theorem key_user (u : User) : key u = u.id := rfl
@[simp] theorem key_source (s : Source) : key s = s.id := rfl
@[simp] theorem key_server (s : Server) : key s = s.id := rfl
@[simp] theorem key_organization (o : Organization) : key o = o.id := rfl
@[simp] theorem key_mapping (m : Mapping) : key m = m.id := rfl
@[simp] theorem key_organizationConfig (c : OrganizationConfig) : key c = c.organizationID := rfl

@[simp] theorem ofSeq_nat (n : ℕ) : (ofSeq n : ℕ) = n := rfl
@[simp] theorem ofSeq_int (n : ℕ) : (ofSeq n : ℤ) = n := rfl
@[simp] theorem ofSeq_string (n : ℕ) : (ofSeq n : String) = n.repr := rfl
@[simp] theorem blank_nat (n : ℕ) : blank n = false := rfl
@[simp] theorem blank_int (n : ℤ) : blank n = false := rfl

end Chronograf
