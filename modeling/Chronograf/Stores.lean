/-
# The interfaces of the stores

The store interfaces of `chronograf.go`. The bolt stores implement them, the
facades of an organization implement them over another store, and the `noop`
stores implement them by refusing.
-/
import Chronograf.Context
import Chronograf.Lib.Tx

namespace Chronograf

variable (σ : Type)

/-- `chronograf.UsersStore`. -/
structure UsersStore where
  all : Context → Tx Error σ (List User)
  add : Context → User → Tx Error σ User
  delete : Context → User → Tx Error σ Unit
  get : Context → UserQuery → Tx Error σ User
  update : Context → User → Tx Error σ Unit
  num : Context → Tx Error σ ℕ

/-- The interface `chronograf.SourcesStore`, `chronograf.ServersStore` and
`chronograf.DashboardsStore` share: records `ρ` with an ID of `ι`. -/
structure ResourcesStore (ρ ι : Type) where
  all : Context → Tx Error σ (List ρ)
  add : Context → ρ → Tx Error σ ρ
  delete : Context → ρ → Tx Error σ Unit
  get : Context → ι → Tx Error σ ρ
  update : Context → ρ → Tx Error σ Unit

/-- `chronograf.SourcesStore`. -/
abbrev SourcesStore := ResourcesStore σ Source ℤ

/-- `chronograf.ServersStore`. -/
abbrev ServersStore := ResourcesStore σ Server ℤ

/-- `chronograf.OrganizationsStore`. -/
structure OrganizationsStore where
  all : Context → Tx Error σ (List Organization)
  add : Context → Organization → Tx Error σ Organization
  delete : Context → Organization → Tx Error σ Unit
  get : Context → OrganizationQuery → Tx Error σ Organization
  update : Context → Organization → Tx Error σ Unit
  createDefault : Context → Tx Error σ Unit
  defaultOrganization : Context → Tx Error σ Organization

/-- `chronograf.MappingsStore`. -/
structure MappingsStore where
  all : Context → Tx Error σ (List Mapping)
  add : Context → Mapping → Tx Error σ Mapping
  delete : Context → Mapping → Tx Error σ Unit
  get : Context → String → Tx Error σ Mapping
  update : Context → Mapping → Tx Error σ Unit

/-- `chronograf.ConfigStore`, without the method that migration calls. -/
structure ConfigStore where
  get : Context → Tx Error σ Config
  update : Context → Config → Tx Error σ Unit

/-- `chronograf.OrganizationConfigStore`. -/
structure OrganizationConfigStore where
  findOrCreate : Context → String → Tx Error σ OrganizationConfig
  put : Context → OrganizationConfig → Tx Error σ Unit

end Chronograf
