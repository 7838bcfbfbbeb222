/-
# The facade for organizations

`organizations/organizations.go`: who is in an organization sees it and the
default one, and cannot create any.
-/
import Chronograf.Stores

namespace Chronograf
namespace Organizations

variable {σ : Type}

/-- The facade of `organization` on the store `s`. -/
def newOrganizationsStore (s : OrganizationsStore σ) (organization : String) : OrganizationsStore σ where
  all ctx := do
    Tx.ofExcept (validOrganization ctx)
    let ds ← s.all ctx
    let defaultOrg ← s.defaultOrganization ctx
    pure (ds.filter fun d => d.id = organization || d.id = defaultOrg.id)
  add _ _ := Tx.fail (.errorf "cannot create organization")
  delete ctx o := do
    Tx.ofExcept (validOrganization ctx)
    let o ← s.get ctx { id := o.id }
    s.delete ctx o
  get ctx q := do
    Tx.ofExcept (validOrganization ctx)
    let d ← s.get ctx q
    if d.id ≠ organization then Tx.fail .errOrganizationNotFound else pure d
  update ctx o := do
    Tx.ofExcept (validOrganization ctx)
    let _ ← s.get ctx { id := o.id }
    s.update ctx o
  createDefault ctx := do
    Tx.ofExcept (validOrganization ctx)
    s.createDefault ctx
  defaultOrganization ctx := do
    Tx.ofExcept (validOrganization ctx)
    s.defaultOrganization ctx

end Organizations
end Chronograf
