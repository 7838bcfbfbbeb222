/-
# Which store a request gets

`server/stores.go`: a context of the server gets the stores themselves, one
with an organization gets the facades of the organization, any other gets the
stores that refuse. The stores of organizations, mappings and the
configuration are also open to super admins.

Key definitions: `Store.users`, `Store.sources`, `Store.servers`,
`Store.dashboards`, `Store.organizations`, `Store.mappings`, `Store.config`.
Key theorem: `Store.facades`.
-/
import Chronograf.Bolt.Organizations
import Chronograf.Noop
import Chronograf.Organizations.Organizations

namespace Chronograf
namespace Server
namespace Store

/-- The choice between a store, its facade and one that refuses. -/
def select {α : Type} (ctx : Context) (store : α) (facade : String → α) (noop : α) : α :=
  if hasServerContext ctx then store
  else match hasOrganizationContext ctx with
    | some org => facade org
    | none => noop

def sources (ctx : Context) : SourcesStore Db :=
  select ctx Bolt.sourcesStore (Organizations.newSourcesStore Bolt.sourcesStore) Noop.sourcesStore

def servers (ctx : Context) : ServersStore Db :=
  select ctx Bolt.serversStore (Organizations.newServersStore Bolt.serversStore) Noop.serversStore

def users (ctx : Context) : UsersStore Db :=
  select ctx Bolt.usersStore (Organizations.newUsersStore Bolt.usersStore) Noop.usersStore

/-- `ids` are the identifiers the dashboards store gives to new cells and templates. -/
def dashboards (ids : ℕ → String) (ctx : Context) : DashboardsStore Db :=
  select ctx (Bolt.dashboardsStore ids) (Organizations.newDashboardsStore (Bolt.dashboardsStore ids))
    Noop.dashboardsStore

def organizations (ids : ℕ → String) (ctx : Context) : OrganizationsStore Db :=
  if hasServerContext ctx then Bolt.organizationsStore ids
  else if hasSuperAdminContext ctx then Bolt.organizationsStore ids
  else match hasOrganizationContext ctx with
    | some org => Organizations.newOrganizationsStore (Bolt.organizationsStore ids) org
    | none => Noop.organizationsStore

def config (ctx : Context) : ConfigStore Db :=
  if hasServerContext ctx then Bolt.configStore
  else if hasSuperAdminContext ctx then Bolt.configStore
  else Noop.configStore

def mappings (ctx : Context) : MappingsStore Db :=
  if hasServerContext ctx then Bolt.mappingsStore
  else if hasSuperAdminContext ctx then Bolt.mappingsStore
  else Noop.mappingsStore

/-! ### What the context decides -/

variable {ids : ℕ → String} {ctx : Context} {org : String}

theorem select_server {α : Type} {store noop : α} {facade : String → α} (h : hasServerContext ctx = true) :
    select ctx store facade noop = store := if_pos h

theorem select_organization {α : Type} {store noop : α} {facade : String → α} (h : hasServerContext ctx = false)
    (horg : hasOrganizationContext ctx = some org) : select ctx store facade noop = facade org := by
  rw [select, h, horg]
  rfl

@[simp] theorem users_serverContext (ctx : Context) : users (serverContext ctx) = Bolt.usersStore := rfl

@[simp] theorem organizations_serverContext (ctx : Context) :
    organizations ids (serverContext ctx) = Bolt.organizationsStore ids := rfl

@[simp] theorem config_serverContext (ctx : Context) : config (serverContext ctx) = Bolt.configStore := rfl

@[simp] theorem mappings_serverContext (ctx : Context) : mappings (serverContext ctx) = Bolt.mappingsStore := rfl

theorem users_organization (h : hasServerContext ctx = false) (horg : hasOrganizationContext ctx = some org) :
    users ctx = Organizations.newUsersStore Bolt.usersStore org := select_organization h horg

theorem dashboards_organization (h : hasServerContext ctx = false)
    (horg : hasOrganizationContext ctx = some org) :
    dashboards ids ctx = Organizations.newDashboardsStore (Bolt.dashboardsStore ids) org :=
  select_organization h horg

/-- The stores of users, sources, servers and dashboards are the facades of `org`. -/
structure Facades (ids : ℕ → String) (ctx : Context) (org : String) : Prop where
  users : users ctx = Organizations.newUsersStore Bolt.usersStore org
  sources : sources ctx = Organizations.newSourcesStore Bolt.sourcesStore org
  servers : servers ctx = Organizations.newServersStore Bolt.serversStore org
  dashboards : dashboards ids ctx = Organizations.newDashboardsStore (Bolt.dashboardsStore ids) org

theorem facades (h : hasServerContext ctx = false) (horg : hasOrganizationContext ctx = some org) :
    Facades ids ctx org where
  users := select_organization h horg
  sources := select_organization h horg
  servers := select_organization h horg
  dashboards := select_organization h horg

end Store
end Server
end Chronograf
