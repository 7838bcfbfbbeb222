/-
# The configuration of the server and of the organizations

`server/config.go` and `server/org_config.go`: showing and replacing who becomes a
super admin, and showing and replacing the log viewer's configuration of an
organization. A replacement reads the stored record in one transaction and writes
it back in another; whatever other requests do in between, each request still takes
effect at once, so requests served at the same time do and answer what they would
one after the other, and nobody is shown a log viewer configuration that the server
would not accept.

Key definitions: `organizationConfig`, `replaceOrganizationLogViewerConfig`,
`replaceAuthConfig`, `Settings`, `ConfigCall.meaning`.
Key theorems: `configCall_atomic`, `configs_linearized`.
-/
import Chronograf.Bolt.Mappings
import Chronograf.Lib.Linearization
import Chronograf.Logs.ConfigRoundTrip
import Chronograf.Server.Auth

namespace Chronograf

/-! ### The stores -/

namespace Noop

variable {σ : Type}

def organizationConfigStore : OrganizationConfigStore σ where
  findOrCreate _ _ := Tx.fail (.errorf "could not find organization config")
  put _ _ := Tx.fail (.errorf "cannot replace config")

end Noop

namespace Organizations

variable {σ : Type}

/-- The facade looks at the context, and leaves the organization to its caller. -/
def newOrganizationConfigStore (s : OrganizationConfigStore σ) (_ : String) : OrganizationConfigStore σ where
  findOrCreate ctx orgID := do
    Tx.ofExcept (validOrganization ctx)
    s.findOrCreate ctx orgID
  put ctx c := do
    Tx.ofExcept (validOrganization ctx)
    s.put ctx c

end Organizations

namespace Server

open LogViewer (validLogViewerConfig)
open Tx (Atomic Settled Linearized)

def Store.organizationConfig (ctx : Context) : OrganizationConfigStore Db :=
  match hasOrganizationContext ctx with
  | some orgID => Organizations.newOrganizationConfigStore Bolt.organizationConfigStore orgID
  | none => Noop.organizationConfigStore

/-! ### The handlers -/

structure ConfigLinks where
  self : String
  auth : String
  deriving DecidableEq

structure OrganizationConfigLinks where
  self : String
  logViewer : String
  deriving DecidableEq

inductive ConfigResponse
  | config (links : ConfigLinks) (config : Config)
  | authConfig (self : String) (auth : AuthConfig)
  | organizationConfig (links : OrganizationConfigLinks) (config : OrganizationConfig)
  | logViewerConfig (self : String) (logViewer : LogViewerConfig)
  deriving DecidableEq

def newConfigResponse (config : Config) : ConfigResponse :=
  .config ⟨"/chronograf/v1/config", "/chronograf/v1/config/auth"⟩ config

def newAuthConfigResponse (config : Config) : ConfigResponse := .authConfig "/chronograf/v1/config/auth" config.auth

def newOrganizationConfigResponse (c : OrganizationConfig) : ConfigResponse :=
  .organizationConfig ⟨"/chronograf/v1/org_config", "/chronograf/v1/org_config/logviewer"⟩ c

def newLogViewerConfigResponse (c : LogViewerConfig) : ConfigResponse :=
  .logViewerConfig "/chronograf/v1/org_config/logviewer" c

def config (ctx : Context) : Tx Response Db ConfigResponse := do
  let config ← ((Store.config ctx).get ctx).mapError (.ofError 400)
  pure (newConfigResponse config)

def authConfig (ctx : Context) : Tx Response Db ConfigResponse := do
  let config ← ((Store.config ctx).get ctx).mapError (.ofError 400)
  pure (newAuthConfigResponse config)

def replaceAuthConfig (body : Option AuthConfig) (ctx : Context) : Tx Response Db ConfigResponse := do
  let authConfig ← decode body
  let config ← ((Store.config ctx).get ctx).mapError (.ofError 400)
  let config := { config with auth := authConfig }
  ((Store.config ctx).update ctx config).mapError .unknownErrorWithMessage
  pure (newAuthConfigResponse config)

/-- The organization on the context. -/
def onContext (ctx : Context) : Tx Response Db String := Tx.ofExcept
  (match hasOrganizationContext ctx with
    | some orgID => .ok orgID
    | none => .error (.error 400 "Organization not found on context"))

def organizationConfig (ctx : Context) : Tx Response Db ConfigResponse := do
  let orgID ← onContext ctx
  let config ← ((Store.organizationConfig ctx).findOrCreate ctx orgID).mapError (.ofError 400)
  pure (newOrganizationConfigResponse config)

def organizationLogViewerConfig (ctx : Context) : Tx Response Db ConfigResponse := do
  let orgID ← onContext ctx
  let config ← ((Store.organizationConfig ctx).findOrCreate ctx orgID).mapError (.ofError 400)
  pure (newLogViewerConfigResponse config.logViewer)

def replaceOrganizationLogViewerConfig (body : Option LogViewerConfig) (ctx : Context) : Tx Response Db ConfigResponse := do
  let orgID ← onContext ctx
  let logViewerConfig ← decode body
  Tx.ofExcept ((validLogViewerConfig logViewerConfig).mapError (.error 400))
  let config ← ((Store.organizationConfig ctx).findOrCreate ctx orgID).mapError (.ofError 400)
  let config := { config with logViewer := logViewerConfig }
  ((Store.organizationConfig ctx).put ctx config).mapError .unknownErrorWithMessage
  pure (newLogViewerConfigResponse config.logViewer)

/-- The requests for configurations, with their bodies (`none` does not decode). -/
inductive ConfigCall
  | config
  | authConfig
  | replaceAuthConfig (body : Option AuthConfig)
  | organizationConfig
  | organizationLogViewerConfig
  | replaceOrganizationLogViewerConfig (body : Option LogViewerConfig)

def ConfigCall.handler : ConfigCall → Context → Tx Response Db ConfigResponse
  | .config => Server.config
  | .authConfig => Server.authConfig
  | .replaceAuthConfig body => Server.replaceAuthConfig body
  | .organizationConfig => Server.organizationConfig
  | .organizationLogViewerConfig => Server.organizationLogViewerConfig
  | .replaceOrganizationLogViewerConfig body => Server.replaceOrganizationLogViewerConfig body

structure ConfigMessage where
  ctx : Context
  call : ConfigCall

def ConfigMessage.program (m : ConfigMessage) : Tx Response Db ConfigResponse := m.call.handler m.ctx

/-! ### What the configurations are -/

/-- Who becomes a super admin, and the log viewer of every organization. -/
structure Settings where
  auth : AuthConfig
  logViewer : String → LogViewerConfig

/-- An organization that never asked has the default. -/
def settings (db : Db) : Settings where
  auth := (db.config.map Config.auth).getD ⟨false⟩
  logViewer org := ((db.organizationConfigs.get org).getD (Bolt.OrganizationConfigStore.newOrganizationConfig org)).logViewer

/-- What a request for the server's configuration is answered, if the context may ask. -/
def forSuperAdmin (ctx : Context) (t : Settings) (granted : Except Response ConfigResponse × Settings) :
    Except Response ConfigResponse × Settings :=
  if hasServerContext ctx = true ∨ hasSuperAdminContext ctx = true then granted else (.error (.ofError 400 .errConfigNotFound), t)

/-- What a request for an organization's configuration is answered, if the context has one. -/
def forOrganization (ctx : Context) (t : Settings) (granted : String → Except Response ConfigResponse × Settings) :
    Except Response ConfigResponse × Settings :=
  match hasOrganizationContext ctx with
  | some org => granted org
  | none => (.error (.error 400 "Organization not found on context"), t)

/-- What a request does with the configurations when it is alone. -/
def ConfigMessage.meaning (m : ConfigMessage) (t : Settings) : Except Response ConfigResponse × Settings :=
  match m.call with
  | .config => forSuperAdmin m.ctx t (.ok (newConfigResponse ⟨t.auth⟩), t)
  | .authConfig => forSuperAdmin m.ctx t (.ok (newAuthConfigResponse ⟨t.auth⟩), t)
  | .replaceAuthConfig none => (.error .invalidJSON, t)
  | .replaceAuthConfig (some auth) => forSuperAdmin m.ctx t (.ok (newAuthConfigResponse ⟨auth⟩), { t with auth := auth })
  | .organizationConfig => forOrganization m.ctx t fun org => (.ok (newOrganizationConfigResponse ⟨org, t.logViewer org⟩), t)
  | .organizationLogViewerConfig => forOrganization m.ctx t fun org => (.ok (newLogViewerConfigResponse (t.logViewer org)), t)
  | .replaceOrganizationLogViewerConfig none => forOrganization m.ctx t fun _ => (.error .invalidJSON, t)
  | .replaceOrganizationLogViewerConfig (some c) => forOrganization m.ctx t fun org =>
    match validLogViewerConfig c with
    | .error msg => (.error (.error 400 msg), t)
    | .ok () => (.ok (newLogViewerConfigResponse c), { t with logViewer := Function.update t.logViewer org c })

/-! ### One transaction of each request is seen -/

/-- The server has a configuration, which it makes when it is started first. -/
def Started (db : Db) : Prop := ∃ config, db.config = some config

section Atomic

variable {ctx : Context} {t : Settings}

theorem store_config_of_open (h : hasServerContext ctx = true ∨ hasSuperAdminContext ctx = true) :
    Store.config ctx = Bolt.configStore := by
  unfold Store.config
  split_ifs with hserver hsuper
  · rfl
  · rfl
  · exact absurd h (not_or.mpr ⟨hserver, hsuper⟩)

theorem store_config_of_closed (h : ¬ (hasServerContext ctx = true ∨ hasSuperAdminContext ctx = true)) :
    Store.config ctx = Noop.configStore := by
  rw [not_or] at h
  unfold Store.config
  rw [if_neg h.1, if_neg h.2]

theorem settings_auth {db : Db} {config : Config} (h : db.config = some config) : (settings db).auth = config.auth := by
  simp only [settings, h, Option.map_some, Option.getD_some]

/-- Reading the configuration of the server, for a context that may. -/
theorem config_get_ok {db : Db} {config : Config} (h : db.config = some config) :
    (match db.config with
      | none => Except.error Error.errConfigNotFound
      | some cfg => Except.ok cfg) = Except.ok config := by rw [h]

/-- Showing something of the configuration of the server. -/
theorem show_config_atomic (f : Config → ConfigResponse) : Atomic Started settings
    (fun t => forSuperAdmin ctx t (.ok (f ⟨t.auth⟩), t))
    (((Store.config ctx).get ctx).mapError (.ofError 400) >>= fun config => pure (f config)) := by
  by_cases hopen : hasServerContext ctx = true ∨ hasSuperAdminContext ctx = true
  · have hop : (fun t => forSuperAdmin ctx t (.ok (f ⟨t.auth⟩), t)) = fun t => (.ok (f ⟨t.auth⟩), t) :=
      funext fun t => if_pos hopen
    rw [hop, store_config_of_open hopen]
    refine .view_seen fun db ⟨config, hconfig⟩ => ⟨config, config_get_ok hconfig, rfl, ?_⟩
    rw [settings_auth hconfig]
    rfl
  · rw [store_config_of_closed hopen]
    exact fun t => if_neg hopen

theorem replaceAuthConfig_atomic (body : Option AuthConfig) :
    Atomic Started settings (ConfigMessage.mk ctx (.replaceAuthConfig body)).meaning (replaceAuthConfig body ctx) := by
  cases body with
  | none => exact fun t => rfl
  | some auth =>
    show Atomic Started settings (fun t => forSuperAdmin ctx t (.ok (newAuthConfigResponse ⟨auth⟩), { t with auth := auth }))
      (((Store.config ctx).get ctx).mapError (.ofError 400) >>= fun config =>
        ((Store.config ctx).update ctx { config with auth := auth }).mapError .unknownErrorWithMessage >>= fun _ =>
          pure (newAuthConfigResponse { config with auth := auth }))
    by_cases hopen : hasServerContext ctx = true ∨ hasSuperAdminContext ctx = true
    · have hop : (fun t : Settings => forSuperAdmin ctx t (.ok (newAuthConfigResponse ⟨auth⟩), { t with auth := auth })) =
          fun t => (.ok (newAuthConfigResponse ⟨auth⟩), { t with auth := auth }) := funext fun t => if_pos hopen
      rw [hop, store_config_of_open hopen]
      refine .view_unseen fun db ⟨config, hconfig⟩ => ⟨config, config_get_ok hconfig, ?_⟩
      refine Atomic.update_seen (f := fun db : Db => .ok ((), { db with config := some ⟨auth⟩ })) fun db _ => ?_
      exact ⟨(), { db with config := some ⟨auth⟩ }, rfl, ⟨⟨auth⟩, rfl⟩, rfl, rfl⟩
    · rw [store_config_of_closed hopen]
      exact fun t => if_neg hopen

/-- Making an organization's configuration is not seen. -/
theorem settings_put_new {db : Db} {org : String} (horg : org ≠ "") (hget : db.organizationConfigs.get org = none) :
    settings { db with organizationConfigs := db.organizationConfigs.put (Bolt.OrganizationConfigStore.newOrganizationConfig org) } =
      settings db := by
  have hblank : ¬ blank (key (Bolt.OrganizationConfigStore.newOrganizationConfig org)) := by
    exact fun h => horg (of_decide_eq_true h)
  unfold settings
  congr 1
  funext o
  rw [Bucket.get_put hblank]
  split_ifs with ho
  · obtain rfl : o = org := ho
    rw [hget]
    rfl
  · rfl

/-- Replacing it is. -/
theorem settings_put {db : Db} {org : String} (horg : org ≠ "") (c : LogViewerConfig) :
    settings { db with organizationConfigs := db.organizationConfigs.put ⟨org, c⟩ } =
      { settings db with logViewer := Function.update (settings db).logViewer org c } := by
  have hblank : ¬ blank (key (OrganizationConfig.mk org c)) := by
    exact fun h => horg (of_decide_eq_true h)
  unfold settings
  congr 1
  funext o
  rw [Bucket.get_put hblank, key_organizationConfig]
  by_cases ho : o = org
  · rw [if_pos ho, ho, Function.update_self]
    rfl
  · rw [if_neg ho, Function.update_of_ne ho]

/-- What the store finds or makes for an organization is what its configuration means. -/
theorem findOrCreate_spec {org : String} (horg : org ≠ "") (db : Db) : ∃ db',
    (match db.organizationConfigs.get org with
      | some c => Except.ok (c, db)
      | none => if org = "" then .error (.errorf "key required")
        else .ok (Bolt.OrganizationConfigStore.newOrganizationConfig org,
          { db with organizationConfigs := db.organizationConfigs.put (Bolt.OrganizationConfigStore.newOrganizationConfig org) })) =
      (Except.ok (⟨org, (settings db).logViewer org⟩, db') : Except Error (OrganizationConfig × Db)) ∧
    db'.config = db.config ∧ settings db' = settings db := by
  rcases hget : db.organizationConfigs.get org with _ | c
  · refine ⟨{ db with organizationConfigs := db.organizationConfigs.put (Bolt.OrganizationConfigStore.newOrganizationConfig org) },
      ?_, rfl, settings_put_new horg hget⟩
    simp only [settings, hget]
    rw [if_neg horg]
    rfl
  · refine ⟨db, ?_, rfl, rfl⟩
    have hc : c.organizationID = org := (Bucket.get_some hget).2
    simp only [settings, hget, Option.getD_some]
    rw [← hc]

theorem ne_blank_of_has {org : String} (horg : hasOrganizationContext ctx = some org) : org ≠ "" := by
  intro hblank
  unfold hasOrganizationContext at horg
  split at horg
  · split_ifs at horg with hno
    exact hno ((Option.some.inj horg).trans hblank)
  · cases horg

theorem findOrCreate_eq {org : String} (horg : hasOrganizationContext ctx = some org) :
    (Store.organizationConfig ctx).findOrCreate ctx org = Bolt.OrganizationConfigStore.findOrCreate ctx org := by
  unfold Store.organizationConfig
  rw [horg]
  show Tx.ofExcept (validOrganization ctx) >>= _ = _
  rw [validOrganization_of_has horg]
  rfl

theorem put_eq {org : String} (horg : hasOrganizationContext ctx = some org) (c : OrganizationConfig) :
    (Store.organizationConfig ctx).put ctx c = Bolt.OrganizationConfigStore.put ctx c := by
  unfold Store.organizationConfig
  rw [horg]
  show Tx.ofExcept (validOrganization ctx) >>= _ = _
  rw [validOrganization_of_has horg]
  rfl

/-- What a handler does with the configuration of the organization on the context. -/
theorem findOrCreate_atomic {org : String} (horg : hasOrganizationContext ctx = some org)
    {op : Settings → Except Response ConfigResponse × Settings} {k : OrganizationConfig → Tx Response Db ConfigResponse}
    (h : (∀ t, (op t).2 = t ∧ Settled Started settings (op t).1 (k ⟨org, t.logViewer org⟩)) ∨
      ∀ c, Atomic Started settings op (k ⟨org, c⟩)) :
    Atomic Started settings op (((Store.organizationConfig ctx).findOrCreate ctx org).mapError (.ofError 400) >>= k) := by
  have hne := ne_blank_of_has horg
  rw [findOrCreate_eq horg, Bolt.OrganizationConfigStore.findOrCreate, Db.update]
  rcases h with hseen | hrest
  · refine .update_seen fun db ⟨config, hconfig⟩ => ?_
    obtain ⟨db', hf, hconfig', hsettings⟩ := findOrCreate_spec hne db
    refine ⟨_, db', hf, ⟨config, hconfig'.trans hconfig⟩, ?_, (hseen (settings db)).2⟩
    rw [hsettings, (hseen (settings db)).1]
  · refine .update_unseen fun db ⟨config, hconfig⟩ => ?_
    obtain ⟨db', hf, hconfig', hsettings⟩ := findOrCreate_spec hne db
    exact ⟨_, db', hf, ⟨config, hconfig'.trans hconfig⟩, hsettings, hrest _⟩

/-- A request that needs an organization on the context. -/
theorem onContext_atomic {op : String → Settings → Except Response ConfigResponse × Settings} {k : String → Tx Response Db ConfigResponse}
    (h : ∀ org, hasOrganizationContext ctx = some org → Atomic Started settings (op org) (k org)) :
    Atomic Started settings (fun t => forOrganization ctx t fun org => op org t) (onContext ctx >>= k) := by
  unfold onContext forOrganization
  rcases horg : hasOrganizationContext ctx with _ | org
  · exact fun t => rfl
  · exact h org horg

/-- Showing something of an organization's configuration. -/
theorem show_organizationConfig_atomic (f : OrganizationConfig → ConfigResponse) : Atomic Started settings
    (fun t => forOrganization ctx t fun org => (.ok (f ⟨org, t.logViewer org⟩), t))
    (onContext ctx >>= fun orgID =>
      ((Store.organizationConfig ctx).findOrCreate ctx orgID).mapError (.ofError 400) >>= fun config => pure (f config)) :=
  onContext_atomic fun _ horg => findOrCreate_atomic horg (.inl fun _ => ⟨rfl, rfl⟩)

/-- A replacement takes effect when it is written, whatever it read before. -/
theorem replaceLogViewerConfig_atomic (body : Option LogViewerConfig) : Atomic Started settings
    (ConfigMessage.mk ctx (.replaceOrganizationLogViewerConfig body)).meaning (replaceOrganizationLogViewerConfig body ctx) := by
  cases body with
  | none => exact @onContext_atomic ctx (fun _ t => (.error .invalidJSON, t)) _ fun _ _ _ => rfl
  | some c =>
    refine onContext_atomic fun org horg => ?_
    replace horg : hasOrganizationContext ctx = some org := horg
    show Atomic _ _ _ (Tx.ofExcept ((validLogViewerConfig c).mapError (Response.error 400)) >>= fun _ => _)
    rcases validLogViewerConfig c with msg | ⟨⟨⟩⟩
    · exact fun t => rfl
    · refine findOrCreate_atomic horg (.inr fun c' => ?_)
      show Atomic _ _ _ (((Store.organizationConfig ctx).put ctx ⟨org, c⟩).mapError _ >>= _)
      rw [put_eq horg, Bolt.OrganizationConfigStore.put, Db.update]
      refine .update_seen fun db ⟨config, hconfig⟩ => ⟨(), _, if_neg (ne_blank_of_has horg), ⟨config, hconfig⟩, ?_, rfl⟩
      exact settings_put (ne_blank_of_has horg) c

/-- Every request is seen to take effect in one of its transactions. -/
theorem configCall_atomic (m : ConfigMessage) : Atomic Started settings m.meaning m.program := by
  obtain ⟨ctx, call⟩ := m
  cases call with
  | config => exact show_config_atomic newConfigResponse
  | authConfig => exact show_config_atomic newAuthConfigResponse
  | replaceAuthConfig body => exact replaceAuthConfig_atomic body
  | organizationConfig => exact show_organizationConfig_atomic newOrganizationConfigResponse
  | organizationLogViewerConfig => exact show_organizationConfig_atomic fun config => newLogViewerConfigResponse config.logViewer
  | replaceOrganizationLogViewerConfig body => exact replaceLogViewerConfig_atomic body

end Atomic

/-! ### Runs -/

/-- Every organization's configuration is one that the server accepts. -/
def AllValid (t : Settings) : Prop := ∀ org, validLogViewerConfig (t.logViewer org) = .ok ()

/-- The log viewer's configuration in an answer. -/
def ConfigResponse.shown : ConfigResponse → Option LogViewerConfig
  | .organizationConfig _ c => some c.logViewer
  | .logViewerConfig _ logViewer => some logViewer
  | .config _ _ => none
  | .authConfig _ _ => none

/-- The requests of `order`, one after the other, lead to the configurations that the
database has, and every answer given is the one of the request's place or one that
the request is given anywhere. -/
structure Explained {ι : Type} (requests : ι → ConfigMessage) (t : Settings) (c : Tx.Config ι Response Db ConfigResponse)
    (order : List ι) : Prop where
  nodup : order.Nodup
  store : settings c.store = Tx.after (fun i => (requests i).meaning) order t
  answer : ∀ i r, c.procs i = .ret r →
    (∃ before later, order = before ++ i :: later ∧ r = ((requests i).meaning (Tx.after (fun i => (requests i).meaning) before t)).1) ∨
      i ∉ order ∧ ∀ t', (requests i).meaning t' = (r, t')

section Runs

variable {ι : Type} {requests : ι → ConfigMessage} {t : Settings} {m : ConfigMessage}

/-- One request keeps the configurations acceptable, and shows no other. -/
theorem meaning_valid (ht : AllValid t) :
    AllValid (m.meaning t).2 ∧ ∀ res c, (m.meaning t).1 = .ok res → res.shown = some c → validLogViewerConfig c = .ok () := by
  obtain ⟨ctx, call⟩ := m
  have hsuper (f : Config → ConfigResponse) (hf : ∀ c, (f c).shown = none) (c : Config) (t' : Settings) (ht' : t'.logViewer = t.logViewer) :
      AllValid (forSuperAdmin ctx t (.ok (f c), t')).2 ∧
        ∀ res c', (forSuperAdmin ctx t (.ok (f c), t')).1 = .ok res → res.shown = some c' → validLogViewerConfig c' = .ok () := by
    unfold forSuperAdmin
    split_ifs
    · refine ⟨fun org => by rw [ht']; exact ht org, fun res c' hres hshown => ?_⟩
      rw [← Except.ok.inj hres, hf] at hshown
      cases hshown
    · exact ⟨ht, nofun⟩
  cases call with
  | config => exact hsuper newConfigResponse (fun _ => rfl) ⟨t.auth⟩ t rfl
  | authConfig => exact hsuper newAuthConfigResponse (fun _ => rfl) ⟨t.auth⟩ t rfl
  | replaceAuthConfig body =>
    cases body with
    | none => exact ⟨ht, nofun⟩
    | some auth => exact hsuper newAuthConfigResponse (fun _ => rfl) ⟨auth⟩ { t with auth := auth } rfl
  | organizationConfig =>
    simp only [ConfigMessage.meaning, forOrganization]
    split
    · refine ⟨ht, fun res c hres hshown => ?_⟩
      rw [← Except.ok.inj hres] at hshown
      rw [← Option.some.inj hshown]
      exact ht _
    · exact ⟨ht, nofun⟩
  | organizationLogViewerConfig =>
    simp only [ConfigMessage.meaning, forOrganization]
    split
    · refine ⟨ht, fun res c hres hshown => ?_⟩
      rw [← Except.ok.inj hres] at hshown
      rw [← Option.some.inj hshown]
      exact ht _
    · exact ⟨ht, nofun⟩
  | replaceOrganizationLogViewerConfig body =>
    cases body with
    | none =>
      simp only [ConfigMessage.meaning, forOrganization]
      split <;> exact ⟨ht, nofun⟩
    | some c =>
      simp only [ConfigMessage.meaning, forOrganization]
      split
      · next org _ =>
        rcases hvalid : validLogViewerConfig c with msg | ⟨⟨⟩⟩
        · exact ⟨ht, nofun⟩
        · refine ⟨fun o => ?_, fun res c' hres hshown => ?_⟩
          · show validLogViewerConfig (Function.update t.logViewer org c o) = .ok ()
            by_cases ho : o = org
            · rw [ho, Function.update_self, hvalid]
            · rw [Function.update_of_ne ho]
              exact ht o
          · rw [← Except.ok.inj hres] at hshown
            rw [← Option.some.inj hshown, hvalid]
      · exact ⟨ht, nofun⟩

theorem after_valid : ∀ (order : List ι) {t : Settings}, AllValid t → AllValid (Tx.after (fun i => (requests i).meaning) order t)
  | [], _, ht => ht
  | _ :: order, _, ht => after_valid order (meaning_valid ht).1

/-- A database whose records are acceptable means acceptable configurations: the default is. -/
theorem settings_valid {db : Db} (hdb : db.organizationConfigs.All fun c => validLogViewerConfig c.logViewer = .ok ()) :
    AllValid (settings db) := by
  intro org
  show validLogViewerConfig ((db.organizationConfigs.get org).getD _).logViewer = .ok ()
  rcases hget : db.organizationConfigs.get org with _ | c
  · exact (LogViewer.preserved_newOrganizationConfig org).1
  · exact hdb.of_get hget

/-- However the transactions of any requests for configurations are interleaved, at every
moment the requests that have taken effect have an order, which later moments go on
with, that explains the database and the answers; and only acceptable log viewer
configurations are ever stored or shown. -/
theorem configs_linearized [DecidableEq ι] (requests : ι → ConfigMessage) {db : Db} (hstarted : Started db)
    (hdb : db.organizationConfigs.All fun c => validLogViewerConfig c.logViewer = .ok ()) (now later : List ι) :
    let c := Tx.Config.mk (fun i => (requests i).program) db
    (∃ order more, order.Sublist now ∧ more.Sublist later ∧ Explained requests (settings db) (c.run now) order ∧
      Explained requests (settings db) (c.run (now ++ later)) (order ++ more)) ∧
    AllValid (settings (c.run now).store) ∧
    ∀ i res shown, (c.run now).procs i = .ret (.ok res) → res.shown = some shown → validLogViewerConfig shown = .ok () := by
  intro c
  obtain ⟨order, more, horder, hmore, hnow, hlater⟩ :=
    Tx.run_linearized (c := c) hstarted (fun i => configCall_atomic (requests i)) now later
  have ht := settings_valid hdb
  refine ⟨⟨order, more, horder, hmore, ⟨hnow.nodup, hnow.store, fun i r => hnow.answer⟩, ⟨hlater.nodup, hlater.store, fun i r => hlater.answer⟩⟩, ?_, ?_⟩
  · rw [hnow.store]
    exact after_valid order ht
  · intro i res shown hi hshown
    rcases hnow.answer hi with ⟨before, _, -, hres⟩ | ⟨-, hany⟩
    · exact (meaning_valid (after_valid before ht)).2 res shown hres.symm hshown
    · exact (meaning_valid ht).2 res shown (by rw [hany]) hshown

end Runs

/-! ### An example -/

def exampleConfigsDb : Db := { Db.empty with config := some ⟨⟨false⟩⟩ }

/-- The organization "1" gets a log viewer with a single column while somebody looks. -/
def exampleConfigMessages : Bool → ConfigMessage
  | false => ⟨{ organization := some "1" }, .organizationLogViewerConfig⟩
  | true => ⟨{ organization := some "1" }, .replaceOrganizationLogViewerConfig (some ⟨[⟨"time", 0, [⟨"visibility", "hidden", ""⟩]⟩]⟩)⟩

theorem configs_linearized_example : Started exampleConfigsDb ∧
    let c := Tx.Config.mk (fun i => (exampleConfigMessages i).program) exampleConfigsDb
    (∃ order more, order.Sublist [true, false] ∧ more.Sublist [true] ∧
      Explained exampleConfigMessages (settings exampleConfigsDb) (c.run [true, false]) order ∧
      Explained exampleConfigMessages (settings exampleConfigsDb) (c.run ([true, false] ++ [true])) (order ++ more)) ∧
    AllValid (settings (c.run [true, false]).store) ∧
    ∀ i res shown, (c.run [true, false]).procs i = .ret (.ok res) → res.shown = some shown → validLogViewerConfig shown = .ok () :=
  ⟨⟨_, rfl⟩, configs_linearized exampleConfigMessages ⟨_, rfl⟩ (fun _ h => absurd h List.not_mem_nil) [true, false] [true]⟩

end Server
end Chronograf
