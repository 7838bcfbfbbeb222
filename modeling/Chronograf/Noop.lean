/-
# The stores that refuse

`noop/*.go`: what a request without an organization gets.
-/
import Chronograf.Dashboard

namespace Chronograf
namespace Noop

variable {σ : Type}

def usersStore : UsersStore σ where
  all _ := Tx.fail (.errorf "no users found")
  add _ _ := Tx.fail (.errorf "failed to add user")
  delete _ _ := Tx.fail (.errorf "failed to delete user")
  get _ _ := Tx.fail .errUserNotFound
  update _ _ := Tx.fail (.errorf "failed to update user")
  num _ := Tx.fail (.errorf "failed to get number of users")

/-- What the refusing stores for sources, servers and dashboards share: the
name of what they do not have, and the error of `get`. -/
def resourcesStore {ρ ι : Type} (name : String) (errNotFound : Error) : ResourcesStore σ ρ ι where
  all _ := Tx.fail (.errorf ("no " ++ name ++ "s found"))
  add _ _ := Tx.fail (.errorf ("failed to add " ++ name))
  delete _ _ := Tx.fail (.errorf ("failed to delete " ++ name))
  get _ _ := Tx.fail errNotFound
  update _ _ := Tx.fail (.errorf ("failed to update " ++ name))

def sourcesStore : SourcesStore σ := resourcesStore "source" .errSourceNotFound

def serversStore : ServersStore σ := resourcesStore "server" .errServerNotFound

def dashboardsStore : DashboardsStore σ := resourcesStore "dashboard" .errDashboardNotFound

def organizationsStore : OrganizationsStore σ where
  all _ := Tx.fail (.errorf "no organizations found")
  add _ _ := Tx.fail (.errorf "failed to add organization")
  delete _ _ := Tx.fail (.errorf "failed to delete organization")
  get _ _ := Tx.fail .errOrganizationNotFound
  update _ _ := Tx.fail (.errorf "failed to update organization")
  createDefault _ := Tx.fail (.errorf "failed to add organization")
  defaultOrganization _ := Tx.fail (.errorf "failed to retrieve default organization")

def mappingsStore : MappingsStore σ where
  all _ := Tx.fail (.errorf "no mappings found")
  add _ _ := Tx.fail (.errorf "failed to add mapping")
  delete _ _ := Tx.fail (.errorf "failed to delete mapping")
  get _ _ := Tx.fail .errMappingNotFound
  update _ _ := Tx.fail (.errorf "failed to update mapping")

def configStore : ConfigStore σ where
  get _ := Tx.fail .errConfigNotFound
  update _ _ := Tx.fail (.errorf "cannot update conifg")

end Noop
end Chronograf
