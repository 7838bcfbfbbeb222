/-
# The facades for sources, servers and dashboards

`organizations/sources.go`, `organizations/servers.go` and
`organizations/dashboards.go` are one facade over three kinds of records: it
filters what it lists, stamps what it adds, and refuses to show a record of
another organization. `Delete` and `Update` look the record up in the
underlying store, without its organization.

Key definitions: `Organizations.newResourcesStore` and its three instances
`newSourcesStore`, `newServersStore`, `newDashboardsStore`.
-/
import Chronograf.Dashboard

namespace Chronograf

/-- Records that belong to an organization. -/
class Resource (ρ : Type) (ι : outParam Type) where
  id : ρ → ι
  organization : ρ → String
  setOrganization : ρ → String → ρ
  errNotFound : Error

instance : Resource Source ℤ where
  id := Source.id
  organization := Source.organization
  setOrganization d org := { d with organization := org }
  errNotFound := .errSourceNotFound

instance : Resource Server ℤ where
  id := Server.id
  organization := Server.organization
  setOrganization d org := { d with organization := org }
  errNotFound := .errServerNotFound

instance : Resource Dashboard ℤ where
  id := Dashboard.id
  organization := Dashboard.organization
  setOrganization d org := { d with organization := org }
  errNotFound := .errDashboardNotFound

@[simp] theorem id_source (s : Source) : Resource.id s = s.id := rfl
@[simp] theorem id_server (s : Server) : Resource.id s = s.id := rfl
@[simp] theorem id_dashboard (d : Dashboard) : Resource.id d = d.id := rfl
@[simp] theorem organization_source (s : Source) : Resource.organization s = s.organization := rfl
@[simp] theorem organization_server (s : Server) : Resource.organization s = s.organization := rfl
@[simp] theorem organization_dashboard (d : Dashboard) : Resource.organization d = d.organization := rfl

namespace Organizations

variable {σ ρ ι : Type} [Resource ρ ι]

/-- The facade of `organization` on the store `s`. -/
def newResourcesStore (s : ResourcesStore σ ρ ι) (organization : String) : ResourcesStore σ ρ ι where
  all ctx := do
    Tx.ofExcept (validOrganization ctx)
    let ds ← s.all ctx
    pure (ds.filter fun d => Resource.organization d = organization)
  add ctx d := do
    Tx.ofExcept (validOrganization ctx)
    s.add ctx (Resource.setOrganization d organization)
  delete ctx d := do
    Tx.ofExcept (validOrganization ctx)
    let d ← s.get ctx (Resource.id d)
    s.delete ctx d
  get ctx id := do
    Tx.ofExcept (validOrganization ctx)
    let d ← s.get ctx id
    if Resource.organization d ≠ organization then Tx.fail (Resource.errNotFound ρ) else pure d
  update ctx d := do
    Tx.ofExcept (validOrganization ctx)
    let _ ← s.get ctx (Resource.id d)
    s.update ctx d

def newSourcesStore (s : SourcesStore σ) (org : String) : SourcesStore σ := newResourcesStore s org

def newServersStore (s : ServersStore σ) (org : String) : ServersStore σ := newResourcesStore s org

def newDashboardsStore (s : DashboardsStore σ) (org : String) : DashboardsStore σ := newResourcesStore s org

end Organizations
end Chronograf
