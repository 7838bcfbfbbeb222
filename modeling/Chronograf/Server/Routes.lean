/-
# The route table

`NewMux` and `AuthAPI` of `server/mux.go`: all routes, with what stands before their
handlers, mounted under the base path; the (vendored) router, which compares a
request's path with them name by name; and the comparison of the cleaned path that
decides whether the request goes through `AuthorizedToken` first.

Key definitions: `validBasepath`, `routes`, `Route.serves`, `MuxOpts.dispatch`,
`behindToken`, `newMux`.
-/
import Chronograf.Lib.Paths
import Chronograf.Server.Auth

namespace Chronograf
namespace Server

open Paths

/-! ### Routes -/

inductive Method
  | get
  | post
  | put
  | patch
  | delete
  | other (name : String)
  deriving DecidableEq

/-- What stands before the handler of a route: nothing, the handler itself asking
for the principal, or `AuthorizedUser` with a role. -/
inductive Guard
  | free
  | principal
  | role (required : String)
  deriving DecidableEq

def ensureViewer : Guard := .role viewerRoleName
def ensureEditor : Guard := .role editorRoleName
def ensureAdmin : Guard := .role adminRoleName
def ensureSuperAdmin : Guard := .role superAdminStatus

structure Route where
  method : Method
  path : String
  guard : Guard
  deriving DecidableEq

/-- The routes of the API; `ensureOrgMatches` and `rawStoreAccess` belong to the
handlers here. -/
def apiRoutes : List Route :=
  [ -- Organizations
    ⟨.get, "/chronograf/v1/organizations", ensureAdmin⟩,
    ⟨.post, "/chronograf/v1/organizations", ensureSuperAdmin⟩,
    ⟨.get, "/chronograf/v1/organizations/:oid", ensureAdmin⟩,
    ⟨.patch, "/chronograf/v1/organizations/:oid", ensureSuperAdmin⟩,
    ⟨.delete, "/chronograf/v1/organizations/:oid", ensureSuperAdmin⟩,
    -- Mappings
    ⟨.get, "/chronograf/v1/mappings", ensureSuperAdmin⟩,
    ⟨.post, "/chronograf/v1/mappings", ensureSuperAdmin⟩,
    ⟨.put, "/chronograf/v1/mappings/:id", ensureSuperAdmin⟩,
    ⟨.delete, "/chronograf/v1/mappings/:id", ensureSuperAdmin⟩,
    -- Sources
    ⟨.get, "/chronograf/v1/sources", ensureViewer⟩,
    ⟨.post, "/chronograf/v1/sources", ensureEditor⟩,
    ⟨.get, "/chronograf/v1/sources/:id", ensureViewer⟩,
    ⟨.patch, "/chronograf/v1/sources/:id", ensureEditor⟩,
    ⟨.delete, "/chronograf/v1/sources/:id", ensureEditor⟩,
    ⟨.get, "/chronograf/v1/sources/:id/health", ensureViewer⟩,
    -- Flux
    ⟨.get, "/chronograf/v1/flux", ensureViewer⟩,
    ⟨.post, "/chronograf/v1/flux/ast", ensureViewer⟩,
    ⟨.get, "/chronograf/v1/flux/suggestions", ensureViewer⟩,
    ⟨.get, "/chronograf/v1/flux/suggestions/:name", ensureViewer⟩,
    ⟨.post, "/chronograf/v1/sources/:id/proxy", ensureViewer⟩,
    ⟨.post, "/chronograf/v1/sources/:id/write", ensureViewer⟩,
    ⟨.post, "/chronograf/v1/sources/:id/queries", ensureViewer⟩,
    -- Annotations are user-defined events associated with this source
    ⟨.get, "/chronograf/v1/sources/:id/annotations", ensureViewer⟩,
    ⟨.post, "/chronograf/v1/sources/:id/annotations", ensureEditor⟩,
    ⟨.get, "/chronograf/v1/sources/:id/annotations/:aid", ensureViewer⟩,
    ⟨.delete, "/chronograf/v1/sources/:id/annotations/:aid", ensureEditor⟩,
    ⟨.patch, "/chronograf/v1/sources/:id/annotations/:aid", ensureEditor⟩,
    ⟨.get, "/chronograf/v1/sources/:id/permissions", ensureViewer⟩,
    -- Users associated with the data source
    ⟨.get, "/chronograf/v1/sources/:id/users", ensureAdmin⟩,
    ⟨.post, "/chronograf/v1/sources/:id/users", ensureAdmin⟩,
    ⟨.get, "/chronograf/v1/sources/:id/users/:uid", ensureAdmin⟩,
    ⟨.delete, "/chronograf/v1/sources/:id/users/:uid", ensureAdmin⟩,
    ⟨.patch, "/chronograf/v1/sources/:id/users/:uid", ensureAdmin⟩,
    -- Roles associated with the data source
    ⟨.get, "/chronograf/v1/sources/:id/roles", ensureViewer⟩,
    ⟨.post, "/chronograf/v1/sources/:id/roles", ensureEditor⟩,
    ⟨.get, "/chronograf/v1/sources/:id/roles/:rid", ensureViewer⟩,
    ⟨.delete, "/chronograf/v1/sources/:id/roles/:rid", ensureEditor⟩,
    ⟨.patch, "/chronograf/v1/sources/:id/roles/:rid", ensureEditor⟩,
    -- Services are resources that chronograf proxies to
    ⟨.get, "/chronograf/v1/sources/:id/services", ensureViewer⟩,
    ⟨.post, "/chronograf/v1/sources/:id/services", ensureEditor⟩,
    ⟨.get, "/chronograf/v1/sources/:id/services/:kid", ensureViewer⟩,
    ⟨.patch, "/chronograf/v1/sources/:id/services/:kid", ensureEditor⟩,
    ⟨.delete, "/chronograf/v1/sources/:id/services/:kid", ensureEditor⟩,
    -- Service Proxy
    ⟨.get, "/chronograf/v1/sources/:id/services/:kid/proxy", ensureViewer⟩,
    ⟨.post, "/chronograf/v1/sources/:id/services/:kid/proxy", ensureEditor⟩,
    ⟨.patch, "/chronograf/v1/sources/:id/services/:kid/proxy", ensureEditor⟩,
    ⟨.delete, "/chronograf/v1/sources/:id/services/:kid/proxy", ensureEditor⟩,
    -- Kapacitor
    ⟨.get, "/chronograf/v1/sources/:id/kapacitors", ensureViewer⟩,
    ⟨.post, "/chronograf/v1/sources/:id/kapacitors", ensureEditor⟩,
    ⟨.get, "/chronograf/v1/sources/:id/kapacitors/:kid", ensureViewer⟩,
    ⟨.patch, "/chronograf/v1/sources/:id/kapacitors/:kid", ensureEditor⟩,
    ⟨.delete, "/chronograf/v1/sources/:id/kapacitors/:kid", ensureEditor⟩,
    -- Kapacitor rules
    ⟨.get, "/chronograf/v1/sources/:id/kapacitors/:kid/rules", ensureViewer⟩,
    ⟨.post, "/chronograf/v1/sources/:id/kapacitors/:kid/rules", ensureEditor⟩,
    ⟨.get, "/chronograf/v1/sources/:id/kapacitors/:kid/rules/:tid", ensureViewer⟩,
    ⟨.put, "/chronograf/v1/sources/:id/kapacitors/:kid/rules/:tid", ensureEditor⟩,
    ⟨.patch, "/chronograf/v1/sources/:id/kapacitors/:kid/rules/:tid", ensureEditor⟩,
    ⟨.delete, "/chronograf/v1/sources/:id/kapacitors/:kid/rules/:tid", ensureEditor⟩,
    -- Kapacitor Proxy
    ⟨.get, "/chronograf/v1/sources/:id/kapacitors/:kid/proxy", ensureViewer⟩,
    ⟨.post, "/chronograf/v1/sources/:id/kapacitors/:kid/proxy", ensureEditor⟩,
    ⟨.patch, "/chronograf/v1/sources/:id/kapacitors/:kid/proxy", ensureEditor⟩,
    ⟨.delete, "/chronograf/v1/sources/:id/kapacitors/:kid/proxy", ensureEditor⟩,
    -- Layouts
    ⟨.get, "/chronograf/v1/layouts", ensureViewer⟩,
    ⟨.get, "/chronograf/v1/layouts/:id", ensureViewer⟩,
    -- Users associated with Chronograf
    ⟨.get, "/chronograf/v1/me", .principal⟩,
    ⟨.put, "/chronograf/v1/me", .principal⟩,
    ⟨.get, "/chronograf/v1/organizations/:oid/users", ensureAdmin⟩,
    ⟨.post, "/chronograf/v1/organizations/:oid/users", ensureAdmin⟩,
    ⟨.get, "/chronograf/v1/organizations/:oid/users/:id", ensureAdmin⟩,
    ⟨.delete, "/chronograf/v1/organizations/:oid/users/:id", ensureAdmin⟩,
    ⟨.patch, "/chronograf/v1/organizations/:oid/users/:id", ensureAdmin⟩,
    ⟨.get, "/chronograf/v1/users", ensureSuperAdmin⟩,
    ⟨.post, "/chronograf/v1/users", ensureSuperAdmin⟩,
    ⟨.get, "/chronograf/v1/users/:id", ensureSuperAdmin⟩,
    ⟨.delete, "/chronograf/v1/users/:id", ensureSuperAdmin⟩,
    ⟨.patch, "/chronograf/v1/users/:id", ensureSuperAdmin⟩,
    -- Dashboards
    ⟨.get, "/chronograf/v1/dashboards", ensureViewer⟩,
    ⟨.post, "/chronograf/v1/dashboards", ensureEditor⟩,
    ⟨.get, "/chronograf/v1/dashboards/:id", ensureViewer⟩,
    ⟨.delete, "/chronograf/v1/dashboards/:id", ensureEditor⟩,
    ⟨.put, "/chronograf/v1/dashboards/:id", ensureEditor⟩,
    ⟨.patch, "/chronograf/v1/dashboards/:id", ensureEditor⟩,
    -- Dashboard Cells
    ⟨.get, "/chronograf/v1/dashboards/:id/cells", ensureViewer⟩,
    ⟨.post, "/chronograf/v1/dashboards/:id/cells", ensureEditor⟩,
    ⟨.get, "/chronograf/v1/dashboards/:id/cells/:cid", ensureViewer⟩,
    ⟨.delete, "/chronograf/v1/dashboards/:id/cells/:cid", ensureEditor⟩,
    ⟨.put, "/chronograf/v1/dashboards/:id/cells/:cid", ensureEditor⟩,
    -- Dashboard Templates
    ⟨.get, "/chronograf/v1/dashboards/:id/templates", ensureViewer⟩,
    ⟨.post, "/chronograf/v1/dashboards/:id/templates", ensureEditor⟩,
    ⟨.get, "/chronograf/v1/dashboards/:id/templates/:tid", ensureViewer⟩,
    ⟨.delete, "/chronograf/v1/dashboards/:id/templates/:tid", ensureEditor⟩,
    ⟨.put, "/chronograf/v1/dashboards/:id/templates/:tid", ensureEditor⟩,
    -- Databases
    ⟨.get, "/chronograf/v1/sources/:id/dbs", ensureViewer⟩,
    ⟨.post, "/chronograf/v1/sources/:id/dbs", ensureEditor⟩,
    ⟨.delete, "/chronograf/v1/sources/:id/dbs/:db", ensureEditor⟩,
    -- Retention Policies
    ⟨.get, "/chronograf/v1/sources/:id/dbs/:db/rps", ensureViewer⟩,
    ⟨.post, "/chronograf/v1/sources/:id/dbs/:db/rps", ensureEditor⟩,
    ⟨.put, "/chronograf/v1/sources/:id/dbs/:db/rps/:rp", ensureEditor⟩,
    ⟨.delete, "/chronograf/v1/sources/:id/dbs/:db/rps/:rp", ensureEditor⟩,
    -- Measurements
    ⟨.get, "/chronograf/v1/sources/:id/dbs/:db/measurements", ensureViewer⟩,
    -- Global application config for Chronograf
    ⟨.get, "/chronograf/v1/config", ensureSuperAdmin⟩,
    ⟨.get, "/chronograf/v1/config/auth", ensureSuperAdmin⟩,
    ⟨.put, "/chronograf/v1/config/auth", ensureSuperAdmin⟩,
    -- Organization config settings for Chronograf
    ⟨.get, "/chronograf/v1/org_config", ensureViewer⟩,
    ⟨.get, "/chronograf/v1/org_config/logviewer", ensureViewer⟩,
    ⟨.put, "/chronograf/v1/org_config/logviewer", ensureEditor⟩,
    ⟨.get, "/chronograf/v1/env", ensureViewer⟩,
    -- V2 Cells
    ⟨.get, "/chronograf/v2/cells", ensureViewer⟩,
    ⟨.post, "/chronograf/v2/cells", ensureEditor⟩,
    ⟨.get, "/chronograf/v2/cells/:id", ensureViewer⟩,
    ⟨.delete, "/chronograf/v2/cells/:id", ensureEditor⟩,
    ⟨.patch, "/chronograf/v2/cells/:id", ensureEditor⟩,
    -- V2 Dashboards
    ⟨.get, "/chronograf/v2/dashboards", ensureViewer⟩,
    ⟨.post, "/chronograf/v2/dashboards", ensureEditor⟩,
    ⟨.get, "/chronograf/v2/dashboards/:id", ensureViewer⟩,
    ⟨.delete, "/chronograf/v2/dashboards/:id", ensureEditor⟩,
    ⟨.patch, "/chronograf/v2/dashboards/:id", ensureEditor⟩]

/-- The options that the routes depend on; the providers by their names in the URL. -/
structure MuxOpts where
  basepath : List Char
  providers : List (List Char)
  pprofEnabled : Bool

/-- The login, the logout and the callback of a provider. -/
def providerRoutes (urlName : List Char) : List Route :=
  ["login", "logout", "callback"].map fun what =>
    ⟨.get, String.ofList (joinAll ["/oauth".toList, urlName, what.toList]), .free⟩

/-- All routes, in the order in which they are registered. -/
def MuxOpts.routes (opts : MuxOpts) (useAuth : Bool) : List Route :=
  (if opts.pprofEnabled then [⟨.get, "/debug/pprof/:thing", .free⟩] else []) ++
    [⟨.get, "/swagger.json", .free⟩, ⟨.get, "/docs", .free⟩] ++ apiRoutes ++ [⟨.get, "/chronograf/v1/", .free⟩] ++
    (if useAuth then opts.providers.flatMap providerRoutes ++ [⟨.get, "/oauth/logout", .free⟩] else [])

/-! ### The base path -/

/-- `[\w-]` -/
def isWordChar (c : Char) : Bool := c.isAlphanum || c = '_' || c = '-'

/-- `validBasepath`: nothing is left when everything that `(\/{1}[\w-]+)+` matches is
taken out. -/
def validBasepath (basepath : List Char) : Bool :=
  match names basepath with
  | first :: rest => first = [] && rest.all fun name => name ≠ [] && name.all isWordChar
  | [] => false

/-- The path under which a route is registered (`MountableRouter`). -/
def Route.mount (basepath : List Char) (r : Route) : List Char :=
  if basepath = [] then r.path.toList else joinAll [basepath, r.path.toList]

/-! ### The router -/

def isParam (name : List Char) : Bool := name.head? = some ':'

/-- A parameter takes any name, though not a blank one at the end. -/
def matchNames : List (List Char) → List (List Char) → Bool
  | [], [] => true
  | [part], [name] => if isParam part then name ≠ [] else part = name
  | part :: parts, name :: rest => (isParam part || part = name) && matchNames parts rest
  | _, _ => false

structure Request where
  method : Method
  path : List Char

def Route.serves (basepath : List Char) (r : Route) (req : Request) : Bool :=
  r.method = req.method && matchNames (names (r.mount basepath)) (names req.path)

/-- The route of a request; two that have one cannot be registered. -/
def MuxOpts.dispatch (opts : MuxOpts) (useAuth : Bool) (req : Request) : Option Route :=
  (opts.routes useAuth).find? fun r => r.serves opts.basepath req

/-! ### The handler of `NewMux` -/

def rootPath (basepath : List Char) : List Char := joinAll [basepath, "/chronograf/v1".toList]

def logoutPath (basepath : List Char) : List Char := joinAll [basepath, "/oauth/logout".toList]

/-- What `AuthAPI` asks of the path of a request. -/
def behindToken (basepath path : List Char) : Bool :=
  let cleanPath := clean path
  (rootPath basepath).isPrefixOf cleanPath && cleanPath.length > (rootPath basepath).length ||
    cleanPath = logoutPath basepath

def Route.guarded (s : Service) (r : Route) (next : Handler) : Handler :=
  match r.guard with
  | .role required => authorizedUser s required next
  | _ => next

/-- The handlers of the routes are given, and so is what the router does with a
request that has no route. -/
def newMux (s : Service) (opts : MuxOpts) (handle : Route → Handler) (unrouted : Handler) (validated : Option Principal)
    (req : Request) : Handler :=
  let router := match opts.dispatch s.useAuth req with
    | some r => r.guarded s (handle r)
    | none => unrouted
  if s.useAuth = true ∧ behindToken opts.basepath req.path = true then authorizedToken validated router else router

end Server
end Chronograf
