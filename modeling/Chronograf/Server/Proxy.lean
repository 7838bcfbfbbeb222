/-
# Requests that are passed on

`server/proxy.go` passes requests on to kapacitors and services, and `Write` of
`server/influx.go` to the databases of sources. Where a request goes is what the
stored URL and the path of the request make together, so a path leads to another
host than the stored one exactly when the stored URL is nothing but a scheme and
slashes (`leads_home_iff`). Stored URLs have a scheme, whatever requests change
them at the same time, and what is sent with a request is what was stored with
the URL (`forwarded_home`).

Key definitions: `singleJoiningSlash`, `proxy`, `write`, `Traffic`, `Addressed`,
`ProxyCall.Follows`.
Key theorems: `leads_home_iff`, `program_addressed`, `forwarded_home`.
-/
import Chronograf.Enterprise.DataNodes
import Chronograf.Lib.Interleaving
import Chronograf.Lib.Url
import Chronograf.Server.Reads
import Chronograf.Server.Connections

namespace Chronograf
namespace Server

open Enterprise.DataNodes (Authorizer defaultAuthorization)
open Tx (Given)

/-! ### The handlers -/

/-- What a request that is passed on is sent with. -/
structure Forwarded where
  url : Url
  authorizer : Authorizer
  insecureSkipVerify : Bool
  deriving DecidableEq

def singleJoiningSlash (a b : List Char) : List Char :=
  let aslash := a.getLast? = some '/'
  let bslash := b.head? = some '/'
  if aslash ∧ bslash then a ++ b.tail
  else if ¬ aslash ∧ ¬ bslash then a ++ '/' :: b
  else a ++ b

/-- A kapacitor has the basic authorization of its record. -/
def serverAuthorization (srv : Server) : Authorizer :=
  if srv.username ≠ "" ∧ srv.password ≠ "" then .basicAuth srv.username srv.password else .noAuthorization

/-- `Proxy`, which `ProxyGet`, `ProxyPost`, `ProxyPatch` and `ProxyDelete` are. -/
def proxy (esc : Url.Escapes) (param kid path : String) (ctx : Context) : Tx Response Db Forwarded := do
  let srcID ← Tx.ofExcept ((paramID param).mapError (.ofError 422))
  let id ← Tx.ofExcept ((paramID kid).mapError (.ofError 422))
  if path = "" then Tx.fail (.error 422 "path query parameter required")
  else do
    let srv ← ((Store.servers ctx).get ctx id).mapError fun _ => .notFound (Int.repr id)
    if srv.srcID ≠ srcID then Tx.fail (.notFound (Int.repr id))
    else do
      let u ← Tx.ofExcept ((Url.parse esc (singleJoiningSlash srv.url.toList path.toList)).mapError fun err =>
        .error 422 ("Error parsing kapacitor url: " ++ err))
      pure ⟨u, serverAuthorization srv, srv.insecureSkipVerify⟩

/-- `rawQuery` is the query of the request, which goes on with it. -/
def write (esc : Url.Escapes) (param rawQuery : String) (ctx : Context) : Tx Response Db Forwarded := do
  let id ← Tx.ofExcept ((paramID param).mapError (.ofError 422))
  let src ← ((Store.sources ctx).get ctx id).mapError fun _ => .notFound (Int.repr id)
  let u ← Tx.ofExcept ((Url.parse esc src.url.toList).mapError fun err => .error 422 ("Error parsing source url: " ++ err))
  pure ⟨{ u with path := "/write".toList, rawQuery := rawQuery.toList }, defaultAuthorization src, src.insecureSkipVerify⟩

inductive ProxyCall
  | proxy (param kid path : String)
  | write (param rawQuery : String)

def ProxyCall.handler (esc : Url.Escapes) : ProxyCall → Context → Tx Response Db Forwarded
  | .proxy param kid path => Server.proxy esc param kid path
  | .write param rawQuery => Server.write esc param rawQuery

/-- The requests for sources, kapacitors and services, and those that are passed on to them. -/
inductive Traffic
  | connection (m : ConnectionMessage)
  | passed (ctx : Context) (call : ProxyCall)

def Traffic.program (s : Service) (esc : Url.Escapes) : Traffic → Tx Response Db (Answer ⊕ Forwarded)
  | .connection m => do pure (.inl (← m.program s))
  | .passed ctx call => do pure (.inr (← call.handler esc ctx))

/-- `url.ParseRequestURI`, as far as the handlers look at it. -/
def requestScheme (esc : Url.Escapes) (uri : String) : Except String String :=
  (Url.parseRequestURI esc uri.toList).map fun u => String.ofList u.scheme

/-! ### Where a path leads -/

/-- A scheme with slashes at most: what is put behind it becomes the host. -/
def Bare (url : List Char) : Prop := ∃ scheme rest, Url.HasScheme url scheme rest ∧ rest ∈ [[], ['/'], ['/', '/']]

theorem singleJoiningSlash_eq (a b : List Char) : ∃ w, singleJoiningSlash a b = a ++ w ∧
    (a.getLast? = some '/' ∨ w.head? = some '/') := by
  unfold singleJoiningSlash
  by_cases ha : a.getLast? = some '/' <;> by_cases hb : b.head? = some '/'
  · exact ⟨b.tail, by simp [ha, hb], .inl ha⟩
  · exact ⟨b, by simp [ha, hb], .inl ha⟩
  · exact ⟨b, by simp [ha, hb], .inr hb⟩
  · exact ⟨'/' :: b, by simp [ha, hb], .inr rfl⟩

section Paths

variable {esc : Url.Escapes} {url path scheme rest : List Char} {u u₀ : Url}

/-- No path leads away from a URL that says where it leads. -/
theorem home_of_join (h : Url.HasScheme url scheme rest) (hbare : ¬ Bare url)
    (hu : Url.parse esc (singleJoiningSlash url path) = .ok u) :
    u.home = (scheme.map Char.toLower, Url.authorityOf rest) := by
  have hrest : rest ∉ [[], ['/'], ['/', '/']] := fun hmem => hbare ⟨scheme, rest, h, hmem⟩
  have hne : rest ≠ [] := fun hnil => hrest (by rw [hnil]; exact List.mem_cons_self)
  obtain ⟨w, hw, hslash⟩ := singleJoiningSlash_eq url path
  have hlast : url.getLast? = rest.getLast? := by
    rw [h.text, List.getLast?_append_of_ne_nil _ (List.cons_ne_nil _ _), List.getLast?_cons_of_ne_nil hne]
  rw [hlast] at hslash
  rw [hw] at hu
  rw [Url.home_of_parse (h.append w) hu, Url.authorityOf_append hrest hslash]

/-- Some path leads from a bare URL to the host `x`. -/
theorem join_bare (hbare : Bare url) : ∃ path scheme, path ≠ [] ∧
    Url.HasScheme (singleJoiningSlash url path) scheme ['/', '/', 'x'] := by
  obtain ⟨scheme, rest, h, hrest⟩ := hbare
  have hx : ∀ w, rest ++ w = ['/', '/', 'x'] → Url.HasScheme (url ++ w) scheme ['/', '/', 'x'] := fun w hw => by
    rw [← hw]
    exact h.append w
  simp only [List.mem_cons, List.not_mem_nil, or_false] at hrest
  rcases hrest with rfl | rfl | rfl
  · refine ⟨['/', '/', 'x'], scheme, List.cons_ne_nil _ _, ?_⟩
    have hjoin : singleJoiningSlash url ['/', '/', 'x'] = url ++ ['/', '/', 'x'] := by simp [singleJoiningSlash, h.text]
    rw [hjoin]
    exact hx _ rfl
  · refine ⟨['/', '/', 'x'], scheme, List.cons_ne_nil _ _, ?_⟩
    have hjoin : singleJoiningSlash url ['/', '/', 'x'] = url ++ ['/', 'x'] := by simp [singleJoiningSlash, h.text]
    rw [hjoin]
    exact hx _ rfl
  · refine ⟨['x'], scheme, List.cons_ne_nil _ _, ?_⟩
    have hjoin : singleJoiningSlash url ['x'] = url ++ ['x'] := by simp [singleJoiningSlash, h.text]
    rw [hjoin]
    exact hx _ rfl

/-- A stored URL with a scheme keeps every path at its own scheme, host and user information
if and only if there is more to it than the scheme and slashes. -/
theorem leads_home_iff (hhost : esc.authority ['x'] = .ok ()) (hpath : esc.path [] = .ok ())
    (h₀ : Url.parse esc url = .ok u₀) (hscheme : u₀.scheme ≠ []) :
    (∀ path u, path ≠ [] → Url.parse esc (singleJoiningSlash url path) = .ok u → u.home = u₀.home) ↔ ¬ Bare url := by
  obtain ⟨scheme, rest, h⟩ := Url.hasScheme_of_parse h₀ hscheme
  have hhome := Url.home_of_parse h h₀
  constructor
  · intro hall hbare
    obtain ⟨path, scheme', hne, hjoin⟩ := join_bare hbare
    have hx := hall path _ hne (Url.parse_authority hjoin (by simp [Url.authorityChar]) hhost hpath)
    obtain ⟨scheme₁, rest₁, h₁, hrest⟩ := hbare
    obtain ⟨rfl, rfl⟩ : scheme = scheme₁ ∧ rest = rest₁ := by
      simpa using h.getscheme.symm.trans h₁.getscheme
    rw [hhome] at hx
    have hblank : Url.authorityOf rest = [] := by
      simp only [List.mem_cons, List.not_mem_nil, or_false] at hrest
      rcases hrest with rfl | rfl | rfl <;> rfl
    rw [hblank] at hx
    exact absurd (Prod.mk.inj hx).2 (List.cons_ne_nil _ _)
  · intro hbare path u _ hu
    rw [hhome, home_of_join h hbare hu]

end Paths

/-! ### Stored URLs -/

def HasAddress (url : String) : Prop := ∃ scheme rest, Url.HasScheme url.toList scheme rest

/-- Every stored URL has a scheme. -/
structure Addressed (db : Db) : Prop where
  servers : db.servers.All fun srv => HasAddress srv.url
  sources : db.sources.All fun src => HasAddress src.url

/-- Whoever else keeps every stored URL addressed, the program does too. -/
abbrev Addresses {ε α : Type} (Q : α → Prop) (p : Tx ε Db α) : Prop := Given Addressed (fun _ db' => Addressed db') Q p

/-- A store that keeps URLs addressed as long as only such are stored. -/
structure AddressesRecords {ρ : Type} (ok : ρ → Prop) (t : ResourcesStore Db ρ ℤ) : Prop where
  all : ∀ ctx, Addresses (fun _ => True) (t.all ctx)
  add : ∀ ctx d, ok d → Addresses (fun _ => True) (t.add ctx d)
  delete : ∀ ctx d, Addresses (fun _ => True) (t.delete ctx d)
  get : ∀ ctx id, Addresses ok (t.get ctx id)
  update : ∀ ctx d, ok d → Addresses (fun _ => True) (t.update ctx d)

section Stores

theorem addressed_txUpdate_server {b b' : Bucket Server} {srv : Server} (hb : b.All fun srv => HasAddress srv.url)
    (hsrv : HasAddress srv.url) (h : Bolt.ServersStore.txUpdate b srv = .ok b') : b'.All fun srv => HasAddress srv.url := by
  unfold Bolt.ServersStore.txUpdate at h
  rcases hget : b.get srv.id with _ | old
  · rw [hget] at h
    cases h
  · rw [hget] at h
    obtain rfl := Except.ok.inj h
    refine Bucket.All.put ?_ hsrv
    split
    · exact hb.sweep fun _ h => h
    · exact hb

theorem addressed_txUpdate_source {b b' : Bucket Source} {src : Source} (hb : b.All fun src => HasAddress src.url)
    (hsrc : HasAddress src.url) (h : Bolt.SourcesStore.txUpdate b src = .ok b') : b'.All fun src => HasAddress src.url := by
  unfold Bolt.SourcesStore.txUpdate at h
  rcases hget : b.get src.id with _ | old
  · rw [hget] at h
    cases h
  · rw [hget] at h
    obtain rfl := Except.ok.inj h
    refine Bucket.All.put ?_ hsrc
    split
    · exact hb.sweep fun _ h => h
    · exact hb

theorem addressed_txAdd_source {b : Bucket Source} {src : Source} (hb : b.All fun src => HasAddress src.url)
    (hsrc : HasAddress src.url) : (Bolt.SourcesStore.txAdd b src).2.All fun src => HasAddress src.url := by
  unfold Bolt.SourcesStore.txAdd
  refine Bucket.All.put ?_ hsrc
  split
  · exact hb.nextSequence.sweep fun _ h => h
  · exact hb.nextSequence

theorem addressed_txAdd_server {b : Bucket Server} {srv : Server} (hb : b.All fun srv => HasAddress srv.url)
    (hsrv : HasAddress srv.url) : (Bolt.ServersStore.txAdd b srv).2.All fun srv => HasAddress srv.url := by
  unfold Bolt.ServersStore.txAdd Bolt.ServersStore.resetActiveServer
  exact Bucket.All.put (hb.nextSequence.sweep fun _ h => h) hsrv

theorem addressed_setRandomDefault {b b' : Bucket Source} {src : Source} (hb : b.All fun src => HasAddress src.url)
    (h : Bolt.SourcesStore.setRandomDefault b src = .ok b') : b'.All fun src => HasAddress src.url := by
  unfold Bolt.SourcesStore.setRandomDefault at h
  rcases hget : b.get src.id with _ | target
  · rw [hget] at h
    cases h
  · rw [hget] at h
    have hmem : target ∈ b.recs := (Bucket.get_some hget).1
    obtain ⟨other, hother, hloc, -⟩ := Bolt.SourcesStore.locateOther_eq target.id (List.ne_nil_of_mem hmem)
    simp only [hloc] at h
    split_ifs at h
    · exact @addressed_txUpdate_source _ _ { other with default := true } hb (hb other hother) h
    · rwa [← Except.ok.inj h]

theorem addresses_view {α : Type} {io : Error} {f : Db → Except Error α} {Q : α → Prop}
    (h : ∀ db a, Addressed db → f db = .ok a → Q a) : Addresses Q (Tx.view io f) := .view (fun _ hdb => hdb) h

theorem addresses_update {α : Type} {io : Error} {f : Db → Except Error (α × Db)}
    (h : ∀ db a db', Addressed db → f db = .ok (a, db') → Addressed db') : Addresses (fun _ => True) (Tx.update io f) :=
  .update (fun _ hdb => hdb) fun db a db' hdb hf => ⟨h db a db' hdb hf, trivial⟩

theorem bolt_servers_addresses : AddressesRecords (fun srv : Server => HasAddress srv.url) Bolt.serversStore where
  all _ := addresses_view fun _ _ _ _ => trivial
  add _ srv hsrv := addresses_update
    (f := fun db => .ok ((Bolt.ServersStore.txAdd db.servers srv).1, { db with servers := (Bolt.ServersStore.txAdd db.servers srv).2 }))
    fun db _ _ hdb h => by
      obtain ⟨-, rfl⟩ := Prod.mk.inj (Except.ok.inj h)
      exact ⟨addressed_txAdd_server hdb.servers hsrv, hdb.sources⟩
  delete _ srv := addresses_update (f := fun db => .ok ((), { db with servers := db.servers.delete srv.id }))
    fun db _ _ hdb h => by
      obtain ⟨-, rfl⟩ := Prod.mk.inj (Except.ok.inj h)
      exact ⟨hdb.servers.delete, hdb.sources⟩
  get _ id := addresses_view fun db srv hdb h => by
    rcases hget : db.servers.get id with _ | found
    · rw [hget] at h
      cases h
    · rw [hget] at h
      obtain rfl := Except.ok.inj h
      exact hdb.servers.of_get hget
  update _ srv hsrv := addresses_update fun db _ _ hdb h => by
    obtain ⟨b, hb, h⟩ := Except.bind_ok_iff.mp h
    obtain ⟨-, rfl⟩ := Prod.mk.inj (Except.ok.inj h)
    exact ⟨addressed_txUpdate_server hdb.servers hsrv hb, hdb.sources⟩

theorem bolt_sources_addresses : AddressesRecords (fun src : Source => HasAddress src.url) Bolt.sourcesStore where
  all _ := addresses_view fun _ _ _ _ => trivial
  add _ src hsrc := .bind (fun srcs _ => addresses_update fun db _ _ hdb h => by
    obtain ⟨-, rfl⟩ := Prod.mk.inj (Except.ok.inj h)
    have hfirst : HasAddress (if srcs.length = 0 then { src with default := true } else src).url := by
      split
      · exact hsrc
      · exact hsrc
    exact ⟨hdb.servers, addressed_txAdd_source hdb.sources hfirst⟩)
    (addresses_view (Q := fun _ => True) fun _ _ _ _ => trivial)
  delete _ src := addresses_update fun db _ _ hdb h => by
    obtain ⟨b, hb, h⟩ := Except.bind_ok_iff.mp h
    obtain ⟨-, rfl⟩ := Prod.mk.inj (Except.ok.inj h)
    exact ⟨hdb.servers, (addressed_setRandomDefault hdb.sources hb).delete⟩
  get _ id := addresses_view fun db src hdb h => by
    rcases hget : db.sources.get id with _ | found
    · rw [hget] at h
      cases h
    · rw [hget] at h
      obtain rfl := Except.ok.inj h
      exact hdb.sources.of_get hget
  update _ src hsrc := addresses_update fun db _ _ hdb h => by
    obtain ⟨b, hb, h⟩ := Except.bind_ok_iff.mp h
    obtain ⟨-, rfl⟩ := Prod.mk.inj (Except.ok.inj h)
    exact ⟨hdb.servers, addressed_txUpdate_source hdb.sources hsrc hb⟩

theorem AddressesRecords.facade {ρ : Type} [Resource ρ ℤ] {ok : ρ → Prop} {t : ResourcesStore Db ρ ℤ} (ht : AddressesRecords ok t)
    (hset : ∀ d org, ok d → ok (Resource.setOrganization d org)) (org : String) :
    AddressesRecords ok (Organizations.newResourcesStore t org) where
  all ctx := .ofExcept_bind fun _ _ => .bind (fun _ _ => .pure trivial) (ht.all ctx)
  add ctx d hd := .ofExcept_bind fun _ _ => ht.add ctx _ (hset d org hd)
  delete ctx _ := .ofExcept_bind fun _ _ => .bind (fun found _ => ht.delete ctx found) (ht.get ctx _)
  get ctx id := .ofExcept_bind fun _ _ => .bind (fun _ hd => .ite (fun _ => .fail) fun _ => .pure hd) (ht.get ctx id)
  update ctx d hd := .ofExcept_bind fun _ _ => .bind (fun _ _ => ht.update ctx d hd) (ht.get ctx _)

theorem noop_addresses {ρ : Type} {ok : ρ → Prop} (name : String) (errNotFound : Error) :
    AddressesRecords ok (Noop.resourcesStore name errNotFound : ResourcesStore Db ρ ℤ) where
  all _ := trivial
  add _ _ _ := trivial
  delete _ _ := trivial
  get _ _ := trivial
  update _ _ _ := trivial

theorem servers_addresses (ctx : Context) : AddressesRecords (fun srv : Server => HasAddress srv.url) (Store.servers ctx) :=
  select_induction ctx bolt_servers_addresses (bolt_servers_addresses.facade fun _ _ h => h) (noop_addresses _ _)

theorem sources_addresses (ctx : Context) : AddressesRecords (fun src : Source => HasAddress src.url) (Store.sources ctx) :=
  select_induction ctx bolt_sources_addresses (bolt_sources_addresses.facade fun _ _ h => h) (noop_addresses _ _)

end Stores

section Handlers

variable {s : Service} {esc : Url.Escapes} {out : Outside} {ctx : Context} {kind : ServerKind} {param kid : String}

theorem hasAddress_of_validURI (hout : out.parseRequestURI = requestScheme esc) {kind uri : String}
    (h : validURI out kind uri = .ok ()) : HasAddress uri := by
  unfold validURI at h
  rw [hout, requestScheme] at h
  rcases hu : Url.parseRequestURI esc uri.toList with e | u
  · rw [hu] at h
    cases h
  · rw [hu] at h
    refine Url.hasScheme_of_parseRequestURI hu fun hnil => ?_
    have hblank : String.ofList u.scheme = "" := by rw [hnil]
    simp [Except.map, hblank] at h

theorem defaultOrganization_addresses {f : Error → Response} :
    Addresses (fun _ => True) (((Store.organizations s.ids ctx).defaultOrganization ctx).mapError f) :=
  .mapError (organizations_induction
    (C := fun t : OrganizationsStore Db => Addresses (fun _ => True) (t.defaultOrganization ctx)) s.ids ctx
    (.view (fun _ h => h) fun _ _ _ _ => trivial)
    (fun _ => .ofExcept_bind fun _ _ => .view (fun _ h => h) fun _ _ _ _ => trivial) .fail)

theorem sourceInPath_addresses : Addresses (fun found => HasAddress found.2.url) (sourceInPath ctx param) :=
  .ofExcept_bind fun id _ => .bind (fun src hsrc => Given.pure (show HasAddress (id, src).2.url from hsrc))
    (.mapError ((sources_addresses ctx).get ctx id))

theorem serverInPath_addresses : Addresses (fun found => HasAddress found.2.url) (serverInPath kind ctx param kid) :=
  .ofExcept_bind fun id _ => .ofExcept_bind fun _ _ => .bind
    (fun srv hsrv => .ite (fun _ => .fail) fun _ => Given.pure (show HasAddress (id, srv).2.url from hsrv))
    (.mapError ((servers_addresses ctx).get ctx id))

theorem storeServer_addresses {srv : Server} (self : Server → String) (hsrv : HasAddress srv.url) :
    Addresses (fun _ => True) (storeServer kind out ctx srv self) :=
  .bind (fun _ _ => .pure trivial) (.mapError ((servers_addresses ctx).add ctx srv hsrv))

theorem replaceServer_addresses {srv : Server} (id : ℤ) (hsrv : HasAddress srv.url) :
    Addresses (fun _ => True) (replaceServer kind ctx id srv) :=
  .bind (fun _ _ => .pure trivial) (.mapError ((servers_addresses ctx).update ctx srv hsrv))

theorem serversOf_addresses : Addresses (fun _ => True) (serversOf kind param ctx) :=
  .ofExcept_bind fun _ _ => .bind (fun _ _ => .pure trivial) (.mapError ((servers_addresses ctx).all ctx))

theorem serverID_addresses : Addresses (fun _ => True) (serverID kind param kid ctx) :=
  .bind (fun _ _ => .pure trivial) serverInPath_addresses

theorem removeServer_addresses : Addresses (fun _ => True) (removeServer kind param kid ctx) :=
  .bind (fun found _ => .bind (fun _ _ => .pure trivial) (.mapError ((servers_addresses ctx).delete ctx found.2)))
    serverInPath_addresses

theorem removeSource_addresses : Addresses (fun _ => True) (removeSource param ctx) :=
  .ofExcept_bind fun _ _ => .bind (fun _ _ => .bind (fun _ _ => .pure trivial)
    (.mapError (.bind (fun _ _ => .forEach (fun _ => (servers_addresses ctx).delete ctx _) _) ((servers_addresses ctx).all ctx))))
    (.mapError ((sources_addresses ctx).delete ctx _))

/-- What a valid request says of a source goes into the store, but for the organization. -/
theorem url_of_validSourceRequest {src src' : Source} {org : String} (h : validSourceRequest out src org = .ok src') :
    validURI out "source" src.url = .ok () ∧ src'.url = src.url := by
  unfold validSourceRequest at h
  split_ifs at h
  · obtain ⟨⟨⟩, hvalid, h⟩ := Except.bind_ok_iff.mp h
    rw [← Except.ok.inj h]
    exact ⟨hvalid, rfl⟩
  · obtain ⟨⟨⟩, hvalid, h⟩ := Except.bind_ok_iff.mp h
    rw [← Except.ok.inj h]
    exact ⟨hvalid, rfl⟩

theorem newSource_addresses (hout : out.parseRequestURI = requestScheme esc) (body : Option Source) :
    Addresses (fun _ => True) (newSource s out body ctx) := by
  refine .ofExcept_bind fun src _ => .bind (fun org _ => .ofExcept_bind fun src' hvalid => .ofExcept_bind fun dbType _ => ?_)
    defaultOrganization_addresses
  obtain ⟨huri, hurl⟩ := url_of_validSourceRequest (Tx.mapError_eq_ok.mp hvalid)
  refine .bind (fun _ _ => .pure trivial) (.mapError ((sources_addresses ctx).add ctx _ ?_))
  show HasAddress (withTelegraf src').url
  have htelegraf : (withTelegraf src').url = src'.url := by
    unfold withTelegraf
    split <;> rfl
  rw [htelegraf, hurl]
  exact hasAddress_of_validURI hout huri

theorem updateSource_addresses (hout : out.parseRequestURI = requestScheme esc) (body : Option Source) :
    Addresses (fun _ => True) (updateSource s out body param ctx) := by
  refine .bind (fun found _ => .ofExcept_bind fun req _ => .bind (fun org _ => .ofExcept_bind fun src' hvalid =>
    .ofExcept_bind fun dbType _ => ?_) defaultOrganization_addresses) sourceInPath_addresses
  obtain ⟨huri, hurl⟩ := url_of_validSourceRequest (Tx.mapError_eq_ok.mp hvalid)
  refine .bind (fun _ _ => .pure trivial) (.mapError ((sources_addresses ctx).update ctx _ ?_))
  show HasAddress src'.url
  rw [hurl]
  exact hasAddress_of_validURI hout huri

theorem newKapacitor_addresses (hout : out.parseRequestURI = requestScheme esc) (body : Option PostKapacitorRequest) :
    Addresses (fun _ => True) (newKapacitor s out body param ctx) := by
  refine .bind (fun found _ => .ofExcept_bind fun req _ => .bind (fun org _ => .ofExcept_bind fun valid hvalid =>
    storeServer_addresses _ ?_) defaultOrganization_addresses) sourceInPath_addresses
  have h := Tx.mapError_eq_ok.mp hvalid
  unfold PostKapacitorRequest.valid at h
  split at h
  · obtain ⟨⟨⟩, huri, h⟩ := Except.bind_ok_iff.mp h
    rw [← Except.ok.inj h]
    exact hasAddress_of_validURI hout huri
  · cases h

theorem newService_addresses (hout : out.parseRequestURI = requestScheme esc) (body : Option PostServiceRequest) :
    Addresses (fun _ => True) (newService s out body param ctx) := by
  refine .bind (fun found _ => .ofExcept_bind fun req _ => .bind (fun org _ => .ofExcept_bind fun valid hvalid =>
    .ofExcept_bind fun _ _ => storeServer_addresses _ ?_) defaultOrganization_addresses) sourceInPath_addresses
  have h := Tx.mapError_eq_ok.mp hvalid
  unfold PostServiceRequest.valid at h
  split at h
  · split at h
    · cases h
    · obtain ⟨⟨⟩, huri, h⟩ := Except.bind_ok_iff.mp h
      rw [← Except.ok.inj h]
      exact hasAddress_of_validURI hout huri
  · cases h

/-- A changed URL was looked at, an old one was stored. -/
theorem hasAddress_patch (hout : out.parseRequestURI = requestScheme esc) {kind old : String} {url : Option String}
    (h : validPatchURI out kind url = .ok ()) (hold : HasAddress old) : HasAddress (url.getD old) := by
  cases url with
  | none => exact hold
  | some uri => exact hasAddress_of_validURI hout h

theorem updateKapacitor_addresses (hout : out.parseRequestURI = requestScheme esc) (body : Option PatchKapacitorRequest) :
    Addresses (fun _ => True) (updateKapacitor out body param kid ctx) :=
  .bind (fun _ hfound => .ofExcept_bind fun _ _ => .ofExcept_bind fun _ hvalid =>
    replaceServer_addresses _ (hasAddress_patch hout (Tx.mapError_eq_ok.mp hvalid) hfound)) serverInPath_addresses

theorem updateService_addresses (hout : out.parseRequestURI = requestScheme esc) (body : Option PatchServiceRequest) :
    Addresses (fun _ => True) (updateService out body param kid ctx) := by
  refine .bind (fun found hfound => .ofExcept_bind fun req _ => .ofExcept_bind fun _ hvalid => .ofExcept_bind fun _ _ =>
    replaceServer_addresses _ ?_) serverInPath_addresses
  obtain ⟨⟨⟩, huri, -⟩ := Except.bind_ok_iff.mp (Tx.mapError_eq_ok.mp hvalid)
  exact hasAddress_patch hout huri hfound

/-- Whatever a request does, the stored URLs have a scheme. -/
theorem connectionCall_addresses (hout : out.parseRequestURI = requestScheme esc) (call : ConnectionCall) :
    Addresses (fun _ => True) (call.handler s out ctx) := by
  cases call with
  | newSource body => exact newSource_addresses hout body
  | sources => exact .bind (fun _ _ => .pure trivial) (.mapError ((sources_addresses ctx).all ctx))
  | sourcesID param => exact .bind (fun _ _ => .pure trivial) sourceInPath_addresses
  | removeSource param => exact removeSource_addresses
  | sourceHealth param => exact .bind (fun _ _ => .ite (fun _ => .pure trivial) fun _ => .fail) sourceInPath_addresses
  | updateSource body param => exact updateSource_addresses hout body
  | newKapacitor body param => exact newKapacitor_addresses hout body
  | kapacitors param => exact serversOf_addresses
  | kapacitorsID param kid => exact serverID_addresses
  | removeKapacitor param kid => exact removeServer_addresses
  | updateKapacitor body param kid => exact updateKapacitor_addresses hout body
  | newService body param => exact newService_addresses hout body
  | services param => exact serversOf_addresses
  | serviceID param kid => exact serverID_addresses
  | removeService param kid => exact removeServer_addresses
  | updateService body param kid => exact updateService_addresses hout body

end Handlers

/-! ### What is sent where -/

/-- The context shows the records of the organization. -/
def Shows (ctx : Context) (org : String) : Prop := hasServerContext ctx = true ∨ hasOrganizationContext ctx = some org

/-- The URL leads where the stored one does, or the stored one leads nowhere yet. -/
def LeadsTo (url : String) (u : Url) : Prop := ∃ scheme rest, Url.HasScheme url.toList scheme rest ∧
  (u.home = (scheme.map Char.toLower, Url.authorityOf rest) ∨ Bare url.toList)

/-- What is sent is what the database has under the IDs of the request: the address
and, with it, the authorization. -/
def ProxyCall.Follows (ctx : Context) (db : Db) (f : Forwarded) : ProxyCall → Prop
  | .proxy param kid _ => ∃ id srv, paramID kid = .ok id ∧ paramID param = .ok srv.srcID ∧ db.servers.get id = some srv ∧
    Shows ctx srv.organization ∧ LeadsTo srv.url f.url ∧
    f.authorizer = serverAuthorization srv ∧ f.insecureSkipVerify = srv.insecureSkipVerify
  | .write param rawQuery => ∃ id src, paramID param = .ok id ∧ db.sources.get id = some src ∧
    Shows ctx src.organization ∧ (∃ (u₀ : Url) (scheme rest : List Char), Url.HasScheme src.url.toList scheme rest ∧
      u₀.home = (scheme.map Char.toLower, Url.authorityOf rest) ∧
      f.url = { u₀ with path := "/write".toList, rawQuery := rawQuery.toList }) ∧
    f.authorizer = defaultAuthorization src ∧ f.insecureSkipVerify = src.insecureSkipVerify

section Sent

variable {V : Db → Prop} {G : Db → Db → Prop} {esc : Url.Escapes} {ctx : Context}

/-- A chosen store shows a record only if it is stored and the context shows its organization. -/
theorem select_get_given {ρ : Type} [Resource ρ ℤ] {t noop : ResourcesStore Db ρ ℤ} {id : ℤ}
    (find : Db → ℤ → Option ρ) (ht : Given V G (fun d => ∃ db, V db ∧ find db id = some d) (t.get ctx id))
    (hnoop : ∃ e, noop.get ctx id = Tx.fail e) :
    Given V G (fun d => ∃ db, V db ∧ find db id = some d ∧ Shows ctx (Resource.organization d))
      ((Store.select ctx t (Organizations.newResourcesStore t) noop).get ctx id) := by
  unfold Store.select
  by_cases hserver : hasServerContext ctx = true
  · rw [if_pos hserver]
    exact ht.mono fun d ⟨db, hdb, hd⟩ => ⟨db, hdb, hd, .inl hserver⟩
  · rw [if_neg hserver]
    rcases horg : hasOrganizationContext ctx with _ | org
    · obtain ⟨e, he⟩ := hnoop
      rw [he]
      exact .fail
    · refine .ofExcept_bind fun _ _ => .bind (fun d ⟨db, hdb, hd⟩ => .ite (fun _ => .fail) fun hown => .pure ?_) ht
      rw [not_not] at hown
      exact ⟨db, hdb, hd, .inr (by rw [horg, hown])⟩

theorem servers_get_given (hG : ∀ db, V db → G db db) (id : ℤ) :
    Given V G (fun srv => ∃ db, V db ∧ db.servers.get id = some srv ∧ Shows ctx srv.organization)
      ((Store.servers ctx).get ctx id) := by
  refine select_get_given (fun db => db.servers.get) (.view hG fun db srv hdb h => ?_) ⟨_, rfl⟩
  rcases hget : db.servers.get id with _ | found
  · rw [hget] at h
    cases h
  · rw [hget] at h
    exact ⟨db, hdb, by rw [hget, Except.ok.inj h]⟩

theorem sources_get_given (hG : ∀ db, V db → G db db) (id : ℤ) :
    Given V G (fun src => ∃ db, V db ∧ db.sources.get id = some src ∧ Shows ctx src.organization)
      ((Store.sources ctx).get ctx id) := by
  refine select_get_given (fun db => db.sources.get) (.view hG fun db src hdb h => ?_) ⟨_, rfl⟩
  rcases hget : db.sources.get id with _ | found
  · rw [hget] at h
    cases h
  · rw [hget] at h
    exact ⟨db, hdb, by rw [hget, Except.ok.inj h]⟩

/-- A request that is passed on follows a state that it may find. -/
theorem proxyCall_given (hG : ∀ db, V db → G db db) (hV : ∀ db, V db → Addressed db) (call : ProxyCall) :
    Given V G (fun f => ∃ db, V db ∧ call.Follows ctx db f) (call.handler esc ctx) := by
  cases call with
  | proxy param kid path =>
    refine .ofExcept_bind fun srcID hparam => .ofExcept_bind fun id hkid => .ite (fun _ => .fail) fun _ =>
      .bind (fun srv hsrv => .ite (fun _ => .fail) fun hsrc => .ofExcept_bind fun u hu => .pure ?_)
        (.mapError (servers_get_given hG id))
    obtain ⟨db, hdb, hget, hshows⟩ := hsrv
    rw [not_not] at hsrc
    have hparam := Tx.mapError_eq_ok.mp hparam
    rw [← hsrc] at hparam
    obtain ⟨scheme, rest, haddress⟩ := (hV db hdb).servers.of_get hget
    refine ⟨db, hdb, id, srv, Tx.mapError_eq_ok.mp hkid, hparam, hget, hshows, ⟨scheme, rest, haddress, ?_⟩, rfl, rfl⟩
    by_cases hbare : Bare srv.url.toList
    · exact .inr hbare
    · exact .inl (home_of_join haddress hbare (Tx.mapError_eq_ok.mp hu))
  | write param rawQuery =>
    refine .ofExcept_bind fun id hparam => .bind (fun src hsrc => .ofExcept_bind fun u hu => .pure ?_)
      (.mapError (sources_get_given hG id))
    obtain ⟨db, hdb, hget, hshows⟩ := hsrc
    obtain ⟨scheme, rest, haddress⟩ := (hV db hdb).sources.of_get hget
    exact ⟨db, hdb, id, src, Tx.mapError_eq_ok.mp hparam, hget, hshows,
      ⟨u, scheme, rest, haddress, Url.home_of_parse haddress (Tx.mapError_eq_ok.mp hu), rfl⟩, rfl, rfl⟩

end Sent

section Runs

variable {ι : Type} [DecidableEq ι] {s : Service} {esc : Url.Escapes} {requests : ι → Traffic} {db : Db}

/-- The requests of `ConnectionMessage` look at URLs as `net/url` does. -/
def ParsesWith (esc : Url.Escapes) : Traffic → Prop
  | .connection m => m.out.parseRequestURI = requestScheme esc
  | .passed _ _ => True

theorem program_addresses {t : Traffic} (ht : ParsesWith esc t) : Addresses (fun _ => True) (t.program s esc) := by
  cases t with
  | connection m => exact .bind (fun _ _ => .pure trivial) (connectionCall_addresses ht m.call)
  | passed ctx call => exact .bind (fun _ _ => .pure trivial) (proxyCall_given (fun _ h => h) (fun _ h => h) call)

/-- However the transactions of any requests are interleaved, stored URLs have a
scheme, and what is passed on goes, with the authorization stored with it, where a
URL led that the run has stored under the IDs of the request. -/
theorem forwarded_home (s : Service) (hparse : ∀ i, ParsesWith esc (requests i)) (hdb : Addressed db) (sched : List ι) :
    let c := Tx.Config.mk (fun i => (requests i).program s esc) db
    Addressed (c.run sched).store ∧ ∀ i f, (c.run sched).procs i = .ret (.ok (.inr f)) →
      ∃ ctx call n, requests i = .passed ctx call ∧ call.Follows ctx (c.run (sched.take n)).store f := by
  intro c
  have hrun : ∀ sched : List ι, Addressed (c.run sched).store := fun sched =>
    (Tx.Config.run_given (V := Addressed) (G := fun _ db' => Addressed db') (Q := fun _ _ => True) (fun _ _ _ h => h) sched
      (c := c) (fun i => program_addresses (hparse i)) hdb).1
  refine ⟨hrun sched, fun i f hf => ?_⟩
  let V : Db → Prop := fun db' => ∃ n, db' = (c.run (sched.take n)).store
  have hV : ∀ db', V db' → Addressed db' := fun db' ⟨n, hn⟩ => hn ▸ hrun (sched.take n)
  let P : Answer ⊕ Forwarded → Prop := fun a => ∀ f, a = .inr f →
    ∃ ctx call, requests i = .passed ctx call ∧ ∃ db', V db' ∧ call.Follows ctx db' f
  have hgiven : Given V (fun _ _ => True) P (c.procs i) := by
    show Given V _ P ((requests i).program s esc)
    have hparsei := hparse i
    rcases hi : requests i with m | ⟨ctx, call⟩
    · rw [hi] at hparsei
      have hm : Given V (fun _ _ => True) (fun _ => True) (m.program s) :=
        (connectionCall_addresses hparsei m.call).weaken hV fun _ _ _ => trivial
      exact .bind (fun _ _ => Given.pure nofun) hm
    · refine .bind (fun f' hf' => Given.pure fun f hf => ⟨ctx, call, hi, ?_⟩) (proxyCall_given (fun _ _ => trivial) hV call)
      obtain rfl := Sum.inr.inj hf
      exact hf'
  obtain ⟨ctx, call, hi, db', ⟨n, rfl⟩, hfollows⟩ := Tx.Config.value_of_found sched (fun n => ⟨n, rfl⟩) hgiven hf f rfl
  exact ⟨ctx, call, n, hi, hfollows⟩

end Runs

/-! ### An example -/

def plainEscapes : Url.Escapes := ⟨fun _ => .ok (), fun _ => .ok (), fun _ => .ok ()⟩

/-- Somebody asks the kapacitor for its version while somebody else changes its password. -/
def exampleTraffic : Bool → Traffic
  | false => .passed { organization := some "1" } (.proxy "1" "1" "/kapacitor/v1/ping")
  | true => .connection ⟨{ organization := some "1" }, { exampleOutside with parseRequestURI := requestScheme plainEscapes },
      .updateKapacitor (some ⟨none, none, none, some "hidden", none, none⟩) "1" "1"⟩

theorem exampleTraffic_parses (i : Bool) : ParsesWith plainEscapes (exampleTraffic i) := by
  cases i
  · trivial
  · rfl

theorem exampleServersDb_addressed (password : String) : Addressed (exampleServersDb password) where
  servers := Bucket.All.put (fun _ h => absurd h List.not_mem_nil)
    ⟨"http".toList, "//localhost:9092".toList, show "http://localhost:9092".toList = _ by decide, List.all_eq_true.mp rfl, 'h', "ttp".toList, by decide, by decide⟩
  sources := fun _ h => absurd h List.not_mem_nil

def exampleUrl : Url := ⟨"http".toList, [], "localhost:9092".toList, [], false, [], []⟩

theorem leads_home_iff_example : Url.parse plainEscapes "http://localhost:9092".toList = .ok exampleUrl ∧
    ((∀ path u, path ≠ [] → Url.parse plainEscapes (singleJoiningSlash "http://localhost:9092".toList path) = .ok u →
      u.home = exampleUrl.home) ↔ ¬ Bare "http://localhost:9092".toList) :=
  ⟨by decide, leads_home_iff rfl rfl (show _ = Except.ok exampleUrl by decide) (by decide)⟩

theorem forwarded_home_example : (∀ i, ParsesWith plainEscapes (exampleTraffic i)) ∧ Addressed (exampleServersDb "secret") ∧
    let c := Tx.Config.mk (fun i => (exampleTraffic i).program plainService plainEscapes) (exampleServersDb "secret")
    Addressed (c.run [true, false, true]).store ∧ ∀ i f, (c.run [true, false, true]).procs i = .ret (.ok (.inr f)) →
      ∃ ctx call n, exampleTraffic i = .passed ctx call ∧ call.Follows ctx (c.run ([true, false, true].take n)).store f :=
  ⟨exampleTraffic_parses, exampleServersDb_addressed "secret",
    forwarded_home plainService exampleTraffic_parses (exampleServersDb_addressed "secret") [true, false, true]⟩

end Server
end Chronograf
