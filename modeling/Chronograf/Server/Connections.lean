/-
# The handlers for sources, kapacitors and services

`server/sources.go`: adding, showing, changing and removing the databases the
server works with, and the sources given on the command line. `server/kapacitors.go`
and `server/services.go`: both kinds are servers of a source, told apart by their
type: a kapacitor has none. Their handlers agree but for the kind, what is shown of
a record, and what a request may contain. What a handler learns from outside the
server is part of its input (`Outside`).

Key definitions: `Outside`, `Answer`, `newSource`, `sources`, `sourcesID`,
`removeSource`, `sourceHealth`, `updateSource`, `handleNewSources`; `ServerKind`,
`newKapacitor`, `kapacitors`, `kapacitorsID`, `removeKapacitor`, `updateKapacitor`,
`newService`, `services`, `serviceID`, `removeService`, `updateService`;
`ConnectionCall.handler`.
-/
import Chronograf.Server.Auth

namespace Chronograf
namespace Server

/-! ### What is written -/

structure SourceLinks where
  self : String
  kapacitors : String
  services : String
  proxy : String
  queries : String
  write : String
  permissions : String
  users : String
  roles : String := ""
  databases : String
  annotations : String
  health : String
  deriving DecidableEq

/-- `sourceResponse`: a source, without its secrets. -/
structure SourceResponse where
  source : Source
  authentication : String
  links : SourceLinks
  deriving DecidableEq

structure KapacitorLinks where
  proxy : String
  self : String
  rules : String
  tasks : String
  ping : String
  deriving DecidableEq

/-- `kapacitor`; its password is never set. -/
structure KapacitorResponse where
  id : ℤ
  name : String
  url : String
  username : String
  password : String := ""
  insecureSkipVerify : Bool
  active : Bool
  links : KapacitorLinks
  deriving DecidableEq

structure ServiceLinks where
  proxy : String
  self : String
  source : String
  deriving DecidableEq

/-- `service`; its password is never set. -/
structure ServiceResponse where
  id : ℤ
  srcID : ℤ
  name : String
  url : String
  username : String
  password : String := ""
  insecureSkipVerify : Bool
  type : String
  metadata : String
  links : ServiceLinks
  deriving DecidableEq

inductive Displayed
  | source (res : SourceResponse)
  | kapacitor (res : KapacitorResponse)
  | service (res : ServiceResponse)
  deriving DecidableEq

/-- What a handler of this module answers when nothing is wrong. -/
inductive Answer
  | noContent
  | one (code : ℕ) (location : Option String) (res : Displayed)
  | all (res : List Displayed)
  deriving DecidableEq

/-! ### What comes from outside -/

/-- What one request learns from outside the server: what its database and its
meta services answer, whether a flux service is there, and what `%v` makes of the
request. -/
structure Outside where
  /-- `url.ParseRequestURI`: the scheme, or the text of the error. -/
  parseRequestURI : String → Except String String
  /-- What `tsdbType` gets from the database, if it gets an answer. -/
  tsdbType : Option String
  /-- The database can be connected to and answers a ping. -/
  reachable : Bool
  /-- Whether LDAP is enabled, for the sources whose meta service answers. -/
  ldapConfig : ℤ → Option Bool
  pingFlux : String → Bool → Except String Unit
  /-- The request as `%v` prints it, with addresses for its pointers. -/
  printed : String

def httpAPISrcs : String := "/chronograf/v1/sources"

/-- The path of a source, and of what belongs to it. -/
def sourcePath (id : ℤ) (rest : String) : String := httpAPISrcs ++ "/" ++ Int.repr id ++ rest

def sourceAuthenticationMethod (out : Outside) (src : Source) : String :=
  if src.metaURL ≠ "" ∧ out.ldapConfig src.id = some true then "ldap"
  else if src.username ≠ "" ∧ src.password ≠ "" then "basic"
  else if src.sharedSecret ≠ "" then "shared"
  else "unknown"

/-- By default the database of telegraf is `telegraf`. -/
def withTelegraf (src : Source) : Source := if src.telegraf = "" then { src with telegraf := "telegraf" } else src

def newSourceResponse (out : Outside) (src : Source) : SourceResponse :=
  let src := withTelegraf src
  let authMethod := sourceAuthenticationMethod out src
  { source := { src with password := "", sharedSecret := "" }
    authentication := authMethod
    links :=
      { self := sourcePath src.id ""
        kapacitors := sourcePath src.id "/kapacitors"
        services := sourcePath src.id "/services"
        proxy := sourcePath src.id "/proxy"
        queries := sourcePath src.id "/queries"
        write := sourcePath src.id "/write"
        permissions := sourcePath src.id "/permissions"
        users := sourcePath src.id "/users"
        roles := if src.type = "influx-enterprise" ∧ src.metaURL ≠ "" then sourcePath src.id "/roles" else ""
        databases := sourcePath src.id "/dbs"
        annotations := sourcePath src.id "/annotations"
        health := sourcePath src.id "/health" } }

/-! ### What a request may contain -/

/-- The URL has a scheme; `kind` names it in the message. -/
def validURI (out : Outside) (kind uri : String) : Except Error Unit :=
  match out.parseRequestURI uri with
  | .error err => .error (.errorf ("invalid " ++ kind ++ " URI: " ++ err))
  | .ok scheme => if scheme = "" then .error (.errorf "Invalid URL; no URL scheme defined") else .ok ()

/-- A valid source comes back with an organization. -/
def validSourceRequest (out : Outside) (s : Source) (defaultOrgID : String) : Except Error Source := do
  if s.url = "" then .error (.errorf "url required")
  else if s.type ≠ "" ∧ s.type ≠ "influx" ∧ s.type ≠ "influx-enterprise" ∧ s.type ≠ "influx-relay" then
    .error (.errorf ("invalid source type " ++ s.type))
  else do
    validURI out "source" s.url
    pure (if s.organization = "" then { s with organization := defaultOrgID } else s)

/-! ### The handlers -/

/-- A handler of this module, waiting for the context. -/
abbrev Answerer := Context → Tx Response Db Answer

/-- `tsdbType`, or the response when the database does not answer. -/
def contact (out : Outside) : Tx Response Db String := Tx.ofExcept
  (match out.tsdbType with
    | some dbType => .ok dbType
    | none => .error (.error 400 "Error contacting source"))

def newSource (s : Service) (out : Outside) (body : Option Source) : Answerer := fun ctx => do
  let src ← decode body
  let defaultOrg ← ((Store.organizations s.ids ctx).defaultOrganization ctx).mapError .unknownErrorWithMessage
  let src ← Tx.ofExcept ((validSourceRequest out src defaultOrg.id).mapError .invalidData)
  let dbType ← contact out
  -- the failed `Add` has put the zero source in its place
  let src ← ((Store.sources ctx).add ctx { withTelegraf src with type := dbType }).mapError fun err =>
    .unknownErrorWithMessage (.errorf ("Error storing source {0        false false    }: " ++ err.error))
  let res := newSourceResponse out src
  pure (.one 201 res.links.self (.source res))

def sources (out : Outside) : Answerer := fun ctx => do
  let srcs ← ((Store.sources ctx).all ctx).mapError fun _ => .error 500 "Error loading sources"
  pure (.all (srcs.map fun src => .source (newSourceResponse out src)))

/-- The ID in the path and the source stored under it. -/
def sourceInPath (ctx : Context) (param : String) : Tx Response Db (ℤ × Source) := do
  let id ← Tx.ofExcept ((paramID param).mapError (.ofError 422))
  let src ← ((Store.sources ctx).get ctx id).mapError fun _ => .notFound (Int.repr id)
  pure (id, src)

def sourcesID (out : Outside) (param : String) : Answerer := fun ctx => do
  let (_, src) ← sourceInPath ctx param
  pure (.one 200 none (.source (newSourceResponse out src)))

/-- Every server of the source `srcID` that the context shows. -/
def removeSrcsKapa (ctx : Context) (srcID : ℤ) : Tx Error Db Unit := do
  let kapas ← (Store.servers ctx).all ctx
  Tx.forEach ((kapas.filter fun kapa => kapa.srcID = srcID).map Server.id) fun kapaID =>
    (Store.servers ctx).delete ctx ⟨kapaID, 0, "", "", "", "", false, false, "", "", ""⟩

def removeSource (param : String) : Answerer := fun ctx => do
  let id ← Tx.ofExcept ((paramID param).mapError (.ofError 422))
  ((Store.sources ctx).delete ctx ⟨id, "", "", "", "", "", "", "", false, false, "", "", "", ""⟩).mapError fun err =>
    if err = .errSourceNotFound then .notFound (Int.repr id) else .unknownErrorWithMessage err
  (removeSrcsKapa ctx id).mapError .unknownErrorWithMessage
  pure .noContent

def sourceHealth (out : Outside) (param : String) : Answerer := fun ctx => do
  let _ ← sourceInPath ctx param
  if out.reachable then pure .noContent else Tx.fail (.error 400 "Error contacting source")

/-- What an update takes from the request. -/
def withUpdate (src req : Source) : Source :=
  { src with
    default := req.default
    insecureSkipVerify := req.insecureSkipVerify
    name := if req.name ≠ "" then req.name else src.name
    password := if req.password ≠ "" then req.password else src.password
    username := if req.username ≠ "" then req.username else src.username
    url := if req.url ≠ "" then req.url else src.url
    metaURL := req.metaURL
    type := if req.type ≠ "" then req.type else src.type
    telegraf := if req.telegraf ≠ "" then req.telegraf else src.telegraf
    defaultRP := req.defaultRP }

def updateSource (s : Service) (out : Outside) (body : Option Source) (param : String) : Answerer := fun ctx => do
  let (id, src) ← sourceInPath ctx param
  let req ← decode body
  let defaultOrg ← ((Store.organizations s.ids ctx).defaultOrganization ctx).mapError .unknownErrorWithMessage
  let src ← Tx.ofExcept ((validSourceRequest out (withUpdate src req) defaultOrg.id).mapError .invalidData)
  let dbType ← contact out
  let src := { src with type := dbType }
  ((Store.sources ctx).update ctx src).mapError fun _ => .error 500 ("Error updating source ID " ++ Int.repr id)
  pure (.one 200 none (.source (newSourceResponse out src)))

/-! ### Sources given to the server -/

/-- A source is added once, by its name, and its kapacitor with it. -/
def newSourceKapacitor (ctx : Context) (src : Source) (kapa : Server) : Tx Error Db Unit := do
  let srcs ← (Store.sources ctx).all ctx
  if srcs.any fun source => source.name = src.name then pure ()
  else do
    let src ← (Store.sources ctx).add ctx src
    let _ ← (Store.servers ctx).add ctx { kapa with srcID := src.id }
    pure ()

/-- `input` is what the flag holds, if anything: sources and kapacitors, or the
error of decoding them. -/
def handleNewSources (s : Service) (out : Outside) (input : Option (Except Error (List (Source × Server))))
    (ctx : Context) : Tx Error Db Unit :=
  match input with
  | none => pure ()
  | some srcsKaps => do
    let srcsKaps ← Tx.ofExcept srcsKaps
    let ctx := ctx.withOrganization "default"
    let defaultOrg ← (Store.organizations s.ids ctx).defaultOrganization ctx
    Tx.forEach srcsKaps fun (src, kapa) => do
      let src ← Tx.ofExcept (validSourceRequest out src defaultOrg.id)
      newSourceKapacitor ctx src kapa

/-! ### What is shown -/

/-- The path of a kapacitor or a service of a source. -/
def serverPath (srv : Server) (collection rest : String) : String :=
  sourcePath srv.srcID ("/" ++ collection ++ "/" ++ Int.repr srv.id ++ rest)

def newKapacitorResponse (srv : Server) : KapacitorResponse :=
  { id := srv.id
    name := srv.name
    username := srv.username
    url := srv.url
    active := srv.active
    insecureSkipVerify := srv.insecureSkipVerify
    links :=
      { self := serverPath srv "kapacitors" ""
        proxy := serverPath srv "kapacitors" "/proxy"
        rules := serverPath srv "kapacitors" "/rules"
        tasks := serverPath srv "kapacitors" "/proxy?path=/kapacitor/v1/tasks"
        ping := serverPath srv "kapacitors" "/proxy?path=/kapacitor/v1/ping" } }

/-- A service without metadata shows an empty object. -/
def newServiceResponse (srv : Server) : ServiceResponse :=
  { id := srv.id
    srcID := srv.srcID
    name := srv.name
    username := srv.username
    url := srv.url
    insecureSkipVerify := srv.insecureSkipVerify
    type := srv.type
    metadata := if srv.metadata = "null" ∨ srv.metadata = "" then "\x7b\x7d" else srv.metadata
    links :=
      { self := serverPath srv "services" ""
        source := sourcePath srv.srcID ""
        proxy := serverPath srv "services" "/proxy" } }

/-! ### The two kinds -/

/-- A kind of server: which records are of it, and how one is shown. -/
structure ServerKind where
  holds : Server → Bool
  shown : Server → Displayed
  name : String

def kapacitorKind : ServerKind := ⟨fun srv => srv.type = "", .kapacitor ∘ newKapacitorResponse, "kapacitor"⟩

def serviceKind : ServerKind := ⟨fun srv => srv.type ≠ "", .service ∘ newServiceResponse, "service"⟩

/-- The IDs of a server and its source in the path, and the server of the kind
and the source stored there. -/
def serverInPath (kind : ServerKind) (ctx : Context) (param kid : String) : Tx Response Db (ℤ × Server) := do
  let id ← Tx.ofExcept ((paramID kid).mapError (.ofError 422))
  let srcID ← Tx.ofExcept ((paramID param).mapError (.ofError 422))
  let srv ← ((Store.servers ctx).get ctx id).mapError fun _ => .notFound (Int.repr id)
  if srv.srcID ≠ srcID ∨ ¬ kind.holds srv then Tx.fail (.notFound (Int.repr id)) else pure (id, srv)

/-- The servers of the kind and of the source in the path. -/
def serversOf (kind : ServerKind) (param : String) : Answerer := fun ctx => do
  let srcID ← Tx.ofExcept ((paramID param).mapError (.ofError 422))
  let mrSrvs ← ((Store.servers ctx).all ctx).mapError fun _ => .error 500 ("Error loading " ++ kind.name ++ "s")
  pure (.all ((mrSrvs.filter fun srv => srv.srcID = srcID ∧ kind.holds srv).map kind.shown))

def serverID (kind : ServerKind) (param kid : String) : Answerer := fun ctx => do
  let (_, srv) ← serverInPath kind ctx param kid
  pure (.one 200 none (kind.shown srv))

def removeServer (kind : ServerKind) (param kid : String) : Answerer := fun ctx => do
  let (_, srv) ← serverInPath kind ctx param kid
  ((Store.servers ctx).delete ctx srv).mapError .unknownErrorWithMessage
  pure .noContent

/-- The end of adding a server. -/
def storeServer (kind : ServerKind) (out : Outside) (ctx : Context) (srv : Server) (self : Server → String) :
    Tx Response Db Answer := do
  let srv ← ((Store.servers ctx).add ctx srv).mapError fun err =>
    .unknownErrorWithMessage (.errorf ("Error storing " ++ kind.name ++ " " ++ out.printed ++ ": " ++ err.error))
  pure (.one 201 (self srv) (kind.shown srv))

/-- The end of changing a server. -/
def replaceServer (kind : ServerKind) (ctx : Context) (id : ℤ) (srv : Server) : Tx Response Db Answer := do
  ((Store.servers ctx).update ctx srv).mapError fun _ =>
    .error 500 ("Error updating " ++ kind.name ++ " ID " ++ Int.repr id)
  pure (.one 200 none (kind.shown srv))

/-! ### Kapacitors -/

structure PostKapacitorRequest where
  name : Option String
  url : Option String
  username : String
  password : String
  insecureSkipVerify : Bool
  active : Bool
  organization : String
  deriving DecidableEq

/-- The name, the URL and the organization of a valid request. -/
def PostKapacitorRequest.valid (out : Outside) (p : PostKapacitorRequest) (defaultOrgID : String) :
    Except Error (String × String × String) :=
  match p.name, p.url with
  | some name, some url => do
    validURI out "source" url
    pure (name, url, if p.organization = "" then defaultOrgID else p.organization)
  | _, _ => .error (.errorf "name and url required")

def newKapacitor (s : Service) (out : Outside) (body : Option PostKapacitorRequest) (param : String) :
    Answerer := fun ctx => do
  let (srcID, _) ← sourceInPath ctx param
  let req ← decode body
  let defaultOrg ← ((Store.organizations s.ids ctx).defaultOrganization ctx).mapError .unknownErrorWithMessage
  let (name, url, organization) ← Tx.ofExcept ((req.valid out defaultOrg.id).mapError .invalidData)
  storeServer kapacitorKind out ctx
    { id := 0
      srcID := srcID
      name := name
      username := req.username
      password := req.password
      insecureSkipVerify := req.insecureSkipVerify
      url := url
      active := req.active
      organization := organization
      type := ""
      metadata := "null" }
    fun srv => serverPath srv "kapacitors" ""

def kapacitors (param : String) : Answerer := serversOf kapacitorKind param

def kapacitorsID (param kid : String) : Answerer := serverID kapacitorKind param kid

def removeKapacitor (param kid : String) : Answerer := removeServer kapacitorKind param kid

structure PatchKapacitorRequest where
  name : Option String
  url : Option String
  username : Option String
  password : Option String
  insecureSkipVerify : Option Bool
  active : Option Bool
  deriving DecidableEq

/-- The URL of an update, if it has one. -/
def validPatchURI (out : Outside) (kind : String) : Option String → Except Error Unit
  | some uri => validURI out kind uri
  | none => .ok ()

def PatchKapacitorRequest.valid (out : Outside) (p : PatchKapacitorRequest) : Except Error Unit :=
  validPatchURI out "source" p.url

/-- The server with what the request sets. -/
def PatchKapacitorRequest.patch (req : PatchKapacitorRequest) (srv : Server) : Server :=
  { srv with
    name := req.name.getD srv.name
    url := req.url.getD srv.url
    password := req.password.getD srv.password
    username := req.username.getD srv.username
    insecureSkipVerify := req.insecureSkipVerify.getD srv.insecureSkipVerify
    active := req.active.getD srv.active }

def updateKapacitor (out : Outside) (body : Option PatchKapacitorRequest) (param kid : String) :
    Answerer := fun ctx => do
  let (id, srv) ← serverInPath kapacitorKind ctx param kid
  let req ← decode body
  Tx.ofExcept ((req.valid out).mapError .invalidData)
  replaceServer kapacitorKind ctx id (req.patch srv)

/-! ### Services -/

structure PostServiceRequest where
  name : Option String
  url : Option String
  type : Option String
  username : String
  password : String
  insecureSkipVerify : Bool
  organization : String
  metadata : String
  deriving DecidableEq

/-- The name, the URL, the type and the organization of a valid request. -/
def PostServiceRequest.valid (out : Outside) (p : PostServiceRequest) (defaultOrgID : String) :
    Except Error (String × String × String × String) :=
  match p.name, p.url with
  | some name, some url =>
    match p.type with
    | none => .error (.errorf "type required")
    | some type => do
      validURI out "source" url
      pure (name, url, type, if p.organization = "" then defaultOrgID else p.organization)
  | _, _ => .error (.errorf "name and url required")

/-- A flux service has to answer. -/
def pingService (out : Outside) (type url : String) (insecureSkipVerify : Bool) : Tx Response Db Unit := Tx.ofExcept
  (if type = "flux" then
    (out.pingFlux url insecureSkipVerify).mapError fun err => .error 504 ("Unable to reach flux " ++ url ++ ": " ++ err)
  else .ok ())

def newService (s : Service) (out : Outside) (body : Option PostServiceRequest) (param : String) :
    Answerer := fun ctx => do
  let (srcID, _) ← sourceInPath ctx param
  let req ← decode body
  let defaultOrg ← ((Store.organizations s.ids ctx).defaultOrganization ctx).mapError .unknownErrorWithMessage
  let (name, url, type, organization) ← Tx.ofExcept ((req.valid out defaultOrg.id).mapError .invalidData)
  pingService out type url req.insecureSkipVerify
  storeServer serviceKind out ctx
    { id := 0
      srcID := srcID
      name := name
      username := req.username
      password := req.password
      insecureSkipVerify := req.insecureSkipVerify
      url := url
      active := false
      organization := organization
      type := type
      metadata := req.metadata }
    fun srv => serverPath srv "services" ""

def services (param : String) : Answerer := serversOf serviceKind param

def serviceID (param kid : String) : Answerer := serverID serviceKind param kid

def removeService (param kid : String) : Answerer := removeServer serviceKind param kid

structure PatchServiceRequest where
  name : Option String
  type : Option String
  url : Option String
  username : Option String
  password : Option String
  insecureSkipVerify : Option Bool
  metadata : Option String
  deriving DecidableEq

def PatchServiceRequest.valid (out : Outside) (p : PatchServiceRequest) : Except Error Unit := do
  validPatchURI out "service" p.url
  if p.type = some "" then .error (.errorf "Invalid type; type must not be an empty string") else .ok ()

/-- The server with what the request sets. -/
def PatchServiceRequest.patch (req : PatchServiceRequest) (srv : Server) : Server :=
  { srv with
    name := req.name.getD srv.name
    type := req.type.getD srv.type
    url := req.url.getD srv.url
    password := req.password.getD srv.password
    username := req.username.getD srv.username
    insecureSkipVerify := req.insecureSkipVerify.getD srv.insecureSkipVerify
    metadata := req.metadata.getD srv.metadata }

def updateService (out : Outside) (body : Option PatchServiceRequest) (param kid : String) :
    Answerer := fun ctx => do
  let (id, srv) ← serverInPath serviceKind ctx param kid
  let req ← decode body
  Tx.ofExcept ((req.valid out).mapError .invalidData)
  let srv := req.patch srv
  pingService out srv.type srv.url srv.insecureSkipVerify
  replaceServer serviceKind ctx id srv

/-! ### Requests -/

/-- The requests for sources, kapacitors and services, with their bodies (`none`
does not decode) and the texts of their paths. -/
inductive ConnectionCall
  | newSource (body : Option Source)
  | sources
  | sourcesID (param : String)
  | removeSource (param : String)
  | sourceHealth (param : String)
  | updateSource (body : Option Source) (param : String)
  | newKapacitor (body : Option PostKapacitorRequest) (param : String)
  | kapacitors (param : String)
  | kapacitorsID (param kid : String)
  | removeKapacitor (param kid : String)
  | updateKapacitor (body : Option PatchKapacitorRequest) (param kid : String)
  | newService (body : Option PostServiceRequest) (param : String)
  | services (param : String)
  | serviceID (param kid : String)
  | removeService (param kid : String)
  | updateService (body : Option PatchServiceRequest) (param kid : String)

def ConnectionCall.handler (s : Service) (out : Outside) : ConnectionCall → Answerer
  | .newSource body => Server.newSource s out body
  | .sources => Server.sources out
  | .sourcesID param => Server.sourcesID out param
  | .removeSource param => Server.removeSource param
  | .sourceHealth param => Server.sourceHealth out param
  | .updateSource body param => Server.updateSource s out body param
  | .newKapacitor body param => Server.newKapacitor s out body param
  | .kapacitors param => Server.kapacitors param
  | .kapacitorsID param kid => Server.kapacitorsID param kid
  | .removeKapacitor param kid => Server.removeKapacitor param kid
  | .updateKapacitor body param kid => Server.updateKapacitor out body param kid
  | .newService body param => Server.newService s out body param
  | .services param => Server.services param
  | .serviceID param kid => Server.serviceID param kid
  | .removeService param kid => Server.removeService param kid
  | .updateService body param kid => Server.updateService out body param kid

/-- A request, the context the middlewares gave it, and what it learns from outside. -/
structure ConnectionMessage where
  ctx : Context
  out : Outside
  call : ConnectionCall

def ConnectionMessage.program (s : Service) (m : ConnectionMessage) : Tx Response Db Answer :=
  m.call.handler s m.out m.ctx

/-! ### An example -/

/-- A kapacitor of the source 1, in the organization "1". -/
def exampleKapacitor (password : String) : Server :=
  ⟨1, 1, "kapacitor", "admin", password, "http://localhost:9092", false, true, "1", "", "null"⟩

def exampleServersDb (password : String) : Db :=
  { Db.empty with servers := Bucket.empty.nextSequence.put (exampleKapacitor password) }

def plainService : Service := ⟨true, ⟨""⟩, fun _ => ""⟩

/-- Everything outside answers, and well. -/
def exampleOutside : Outside := ⟨fun _ => .ok "http", some "influx", true, fun _ => none, fun _ _ => .ok (), ""⟩

/-- Somebody in the organization "1" looks at the kapacitor, and somebody else changes
its password. -/
def exampleMessages (password : String) : Bool → ConnectionMessage
  | false => ⟨{ organization := some "1" }, exampleOutside, .kapacitorsID "1" "1"⟩
  | true => ⟨{ organization := some "1" }, exampleOutside,
      .updateKapacitor (some ⟨none, none, none, some password, none, none⟩) "1" "1"⟩

end Server
end Chronograf
