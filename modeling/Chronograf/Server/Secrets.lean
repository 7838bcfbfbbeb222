/-
# Stored secrets are not shown

The passwords of sources, kapacitors and services and the shared secrets of
sources are stored in clear. Whatever requests are served, and however their
transactions are interleaved, every answer is the one the server would give if
each secret, stored or sent, were crossed out: what is shown of a secret is
whether a source has one.

Key definitions: `redactSource`, `redactServer`, `Db.redact`,
`ConnectionMessage.redact`, `Discreet`.
Key theorems: `program_lockstep`, `answers_without_secrets`.
-/
import Chronograf.Lib.Lockstep
import Chronograf.Server.Reads
import Chronograf.Server.Connections
import Mathlib.Tactic.Simps.Basic

namespace Chronograf

/-! ### Crossing out -/

/-- A secret, crossed out. -/
def redacted (secret : String) : String := if secret = "" then "" else "*"

theorem redacted_eq_blank {secret : String} : redacted secret = "" ↔ secret = "" := by
  unfold redacted
  split_ifs with h
  · exact iff_of_true rfl h
  · exact iff_of_false (by decide) h

@[simps] def redactSource (src : Source) : Source :=
  { src with password := redacted src.password, sharedSecret := redacted src.sharedSecret }

def redactServer (srv : Server) : Server := { srv with password := "" }

theorem key_redactSource (src : Source) : key (redactSource src) = key src := rfl

theorem key_redactServer (srv : Server) : key (redactServer srv) = key srv := rfl

/-- The database with its secrets crossed out. -/
def Db.redact (db : Db) : Db :=
  { db with
    sources := db.sources.through redactSource key_redactSource
    servers := db.servers.through redactServer key_redactServer }

namespace Server

open Tx (Lockstep ResultRel)

/-- The second database is the first one with its secrets crossed out. -/
def Redacts (db db' : Db) : Prop := db' = db.redact

/-! ### The stores -/

/-- A store in which the crossed out record takes the place of the record. -/
structure Discreet {ρ : Type} (f : ρ → ρ) (ctx : Context) (t : ResourcesStore Db ρ ℤ) : Prop where
  all : Lockstep Redacts Eq (fun ds ds' => ds' = ds.map f) (t.all ctx) (t.all ctx)
  add : ∀ d, Lockstep Redacts (fun _ _ => False) (fun d d' => d' = f d) (t.add ctx d) (t.add ctx (f d))
  delete : ∀ d, Lockstep Redacts Eq Eq (t.delete ctx d) (t.delete ctx (f d))
  get : ∀ id, Lockstep Redacts Eq (fun d d' => d' = f d) (t.get ctx id) (t.get ctx id)
  update : ∀ d, Lockstep Redacts Eq Eq (t.update ctx d) (t.update ctx (f d))

section Facade

variable {ρ : Type} [Resource ρ ℤ] {f : ρ → ρ} {ctx : Context} {t : ResourcesStore Db ρ ℤ}

/-- The facade of an organization, for a context that has one. -/
theorem Discreet.facade (ht : Discreet f ctx t) (hctx : validOrganization ctx = .ok ()) (org : String)
    (hid : ∀ d, Resource.id (f d) = Resource.id d) (horg : ∀ d, Resource.organization (f d) = Resource.organization d)
    (hset : ∀ d, f (Resource.setOrganization d org) = Resource.setOrganization (f d) org) :
    Discreet f ctx (Organizations.newResourcesStore t org) where
  all := by
    refine .bind (fun _ _ _ => .bind (fun ds ds' hds => .pure ?_) ht.all) (.ofExcept (P := Eq) ResultRel.refl)
    rw [hds, List.filter_map]
    congr 2
    funext d
    exact congrArg (fun o => decide (o = org)) (horg d)
  add d := by
    unfold Organizations.newResourcesStore
    refine .bind (P := Eq) (fun _ _ _ => ?_) (.ofExcept ?_)
    · rw [← hset]
      exact ht.add _
    · rw [hctx]
      rfl
  delete d := by
    refine .bind (fun _ _ _ => .bind (P := fun found found' => found' = f found) (fun found found' hfound => ?_) ?_)
      (.ofExcept (P := Eq) ResultRel.refl)
    · rw [hfound]
      exact ht.delete found
    · rw [hid]
      exact ht.get _
  get id := by
    refine .bind (fun _ _ _ => .bind (fun d d' hd => ?_) (ht.get id)) (.ofExcept (P := Eq) ResultRel.refl)
    subst hd
    exact .ite (by rw [horg]) (.fail rfl) (.pure rfl)
  update d := by
    refine .bind (fun _ _ _ => .bind (P := fun found found' => found' = f found) (fun _ _ _ => ht.update d) ?_)
      (.ofExcept (P := Eq) ResultRel.refl)
    rw [hid]
    exact ht.get _

end Facade

section Bolt

variable {b : Bucket Source} {src : Source} {c : Bucket Server} {srv : Server}

theorem through_resetDefaultSource : (Bolt.SourcesStore.resetDefaultSource b).through redactSource key_redactSource =
    Bolt.SourcesStore.resetDefaultSource (b.through redactSource key_redactSource) :=
  Bucket.through_sweep (fun _ => rfl) (fun _ => rfl) fun _ => rfl

theorem through_resetActiveServer : (Bolt.ServersStore.resetActiveServer c).through redactServer key_redactServer =
    Bolt.ServersStore.resetActiveServer (c.through redactServer key_redactServer) :=
  Bucket.through_sweep (fun _ => rfl) (fun _ => rfl) fun _ => rfl

theorem txUpdate_redactSource : Bolt.SourcesStore.txUpdate (b.through redactSource key_redactSource) (redactSource src) =
    (Bolt.SourcesStore.txUpdate b src).map fun b' => b'.through redactSource key_redactSource := by
  unfold Bolt.SourcesStore.txUpdate
  rw [Bucket.get_through, show (redactSource src).id = src.id from rfl]
  rcases b.get src.id with _ | target
  · rfl
  · refine congrArg Except.ok (Eq.symm ?_)
    dsimp only
    rw [Bucket.through_put]
    by_cases hdefault : src.default = true
    · rw [if_pos hdefault, if_pos (show (redactSource src).default = true from hdefault), through_resetDefaultSource]
    · rw [if_neg hdefault, if_neg (show ¬ (redactSource src).default = true from hdefault)]

theorem txUpdate_redactServer : Bolt.ServersStore.txUpdate (c.through redactServer key_redactServer) (redactServer srv) =
    (Bolt.ServersStore.txUpdate c srv).map fun c' => c'.through redactServer key_redactServer := by
  unfold Bolt.ServersStore.txUpdate
  rw [Bucket.get_through, show (redactServer srv).id = srv.id from rfl]
  rcases c.get srv.id with _ | target
  · rfl
  · refine congrArg Except.ok (Eq.symm ?_)
    dsimp only
    rw [Bucket.through_put]
    by_cases hactive : srv.active = true
    · rw [if_pos hactive, if_pos (show (redactServer srv).active = true from hactive), through_resetActiveServer]
    · rw [if_neg hactive, if_neg (show ¬ (redactServer srv).active = true from hactive)]

theorem txAdd_redactSource : Bolt.SourcesStore.txAdd (b.through redactSource key_redactSource) (redactSource src) =
    (redactSource (Bolt.SourcesStore.txAdd b src).1, (Bolt.SourcesStore.txAdd b src).2.through redactSource key_redactSource) := by
  refine Prod.ext rfl (Eq.symm ?_)
  unfold Bolt.SourcesStore.txAdd
  dsimp only
  rw [Bucket.through_put]
  by_cases hdefault : src.default = true
  · rw [if_pos hdefault, if_pos (show (redactSource src).default = true from hdefault), through_resetDefaultSource]
    rfl
  · rw [if_neg hdefault, if_neg (show ¬ (redactSource src).default = true from hdefault)]
    rfl

theorem txAdd_redactServer : Bolt.ServersStore.txAdd (c.through redactServer key_redactServer) (redactServer srv) =
    (redactServer (Bolt.ServersStore.txAdd c srv).1, (Bolt.ServersStore.txAdd c srv).2.through redactServer key_redactServer) := by
  refine Prod.ext rfl (Eq.symm ?_)
  unfold Bolt.ServersStore.txAdd
  dsimp only
  rw [Bucket.through_put, through_resetActiveServer]
  rfl

theorem locateOther_redactSource (id : ℤ) : ∀ srcs : List Source,
    Bolt.SourcesStore.locateOther id (srcs.map redactSource) = (Bolt.SourcesStore.locateOther id srcs).map redactSource
  | [] => rfl
  | [_] => rfl
  | other :: next :: rest => by
    have ih := locateOther_redactSource id (next :: rest)
    show (if other.id ≠ id then _ else Bolt.SourcesStore.locateOther id ((next :: rest).map redactSource)) =
      (if other.id ≠ id then _ else Bolt.SourcesStore.locateOther id (next :: rest)).map redactSource
    split_ifs
    · rfl
    · exact ih

theorem setRandomDefault_redactSource :
    Bolt.SourcesStore.setRandomDefault (b.through redactSource key_redactSource) (redactSource src) =
      (Bolt.SourcesStore.setRandomDefault b src).map fun b' => b'.through redactSource key_redactSource := by
  unfold Bolt.SourcesStore.setRandomDefault
  rw [Bucket.get_through, show (redactSource src).id = src.id from rfl]
  rcases b.get src.id with _ | target
  · rfl
  · dsimp only [Option.map_some]
    rw [show (redactSource target).default = target.default from rfl, show (redactSource target).id = target.id from rfl,
      show (b.through redactSource key_redactSource).recs = b.recs.map redactSource from rfl, locateOther_redactSource]
    by_cases hdefault : target.default = true
    · simp only [hdefault, if_true]
      rcases Bolt.SourcesStore.locateOther target.id b.recs with _ | other
      · rfl
      · exact @txUpdate_redactSource b { other with default := true }
    · simp only [hdefault]
      rfl

end Bolt

theorem bolt_sources_discreet (ctx : Context) : Discreet redactSource ctx Bolt.sourcesStore where
  all := .view fun db db' hdb => by
    subst hdb
    rfl
  add src := by
    refine .bind (P := fun srcs srcs' => srcs' = srcs.map redactSource) (fun srcs srcs' hsrcs => ?_) (.view fun db db' hdb => ?_)
    · have hsrc : (if srcs'.length = 0 then { redactSource src with default := true } else redactSource src) =
          redactSource (if srcs.length = 0 then { src with default := true } else src) := by
        rw [hsrcs, List.length_map]
        split <;> rfl
      dsimp only
      rw [hsrc]
      refine .update fun db db' hdb => ?_
      subst hdb
      show _ ∧ _
      rw [show db.redact.sources = db.sources.through redactSource key_redactSource from rfl, txAdd_redactSource]
      exact ⟨rfl, rfl⟩
    · subst hdb
      rfl
  delete src := .update fun db db' hdb => by
    subst hdb
    show ResultRel Eq _ (Bolt.SourcesStore.setRandomDefault db.sources src >>= _)
      (Bolt.SourcesStore.setRandomDefault (db.sources.through redactSource key_redactSource) (redactSource src) >>= _)
    rw [setRandomDefault_redactSource]
    rcases Bolt.SourcesStore.setRandomDefault db.sources src with e | b
    · rfl
    · refine ⟨rfl, ?_⟩
      show _ = Db.redact _
      simp only [Db.redact, Bucket.through_delete]
      rfl
  get id := .view fun db db' hdb => by
    subst hdb
    rw [show db.redact.sources = db.sources.through redactSource key_redactSource from rfl, Bucket.get_through]
    rcases db.sources.get id with _ | src <;> rfl
  update src := .update fun db db' hdb => by
    subst hdb
    show ResultRel Eq _ (Bolt.SourcesStore.txUpdate db.sources src >>= _)
      (Bolt.SourcesStore.txUpdate (db.sources.through redactSource key_redactSource) (redactSource src) >>= _)
    rw [txUpdate_redactSource]
    rcases Bolt.SourcesStore.txUpdate db.sources src with e | b
    · rfl
    · exact ⟨rfl, rfl⟩

theorem bolt_servers_discreet (ctx : Context) : Discreet redactServer ctx Bolt.serversStore where
  all := .view fun db db' hdb => by
    subst hdb
    rfl
  add srv := by
    show Lockstep _ _ _ (Bolt.ServersStore.add ctx srv) (Bolt.ServersStore.add ctx (redactServer srv))
    unfold Bolt.ServersStore.add Db.update
    refine Lockstep.update fun db db' hdb => ?_
    subst hdb
    have hadd := @txAdd_redactServer db.servers srv
    have hstore : { db.redact with servers := (Bolt.ServersStore.txAdd db.redact.servers (redactServer srv)).2 } =
        Db.redact { db with servers := (Bolt.ServersStore.txAdd db.servers srv).2 } := by
      rw [show db.redact.servers = db.servers.through redactServer key_redactServer from rfl, hadd]
      rfl
    exact ⟨congrArg Prod.fst hadd, hstore⟩
  delete srv := by
    show Lockstep _ _ _ (Bolt.ServersStore.delete ctx srv) (Bolt.ServersStore.delete ctx (redactServer srv))
    unfold Bolt.ServersStore.delete Db.update
    refine Lockstep.update fun db db' hdb => ?_
    subst hdb
    refine ⟨rfl, ?_⟩
    show _ = Db.redact _
    simp only [Db.redact, Bucket.through_delete]
    rfl
  get id := .view fun db db' hdb => by
    subst hdb
    rw [show db.redact.servers = db.servers.through redactServer key_redactServer from rfl, Bucket.get_through]
    rcases db.servers.get id with _ | srv <;> rfl
  update srv := .update fun db db' hdb => by
    subst hdb
    show ResultRel Eq _ (Bolt.ServersStore.txUpdate db.servers srv >>= _)
      (Bolt.ServersStore.txUpdate (db.servers.through redactServer key_redactServer) (redactServer srv) >>= _)
    rw [txUpdate_redactServer]
    rcases Bolt.ServersStore.txUpdate db.servers srv with e | b
    · rfl
    · exact ⟨rfl, rfl⟩

/-- The context of a request has an organization, or it is the server's own. -/
def Placed (ctx : Context) : Prop := hasServerContext ctx = true ∨ ∃ org, hasOrganizationContext ctx = some org

theorem select_discreet {ρ : Type} [Resource ρ ℤ] {f : ρ → ρ} {ctx : Context} {t noop : ResourcesStore Db ρ ℤ}
    (hctx : Placed ctx) (ht : Discreet f ctx t) (hid : ∀ d, Resource.id (f d) = Resource.id d)
    (horg : ∀ d, Resource.organization (f d) = Resource.organization d)
    (hset : ∀ d org, f (Resource.setOrganization d org) = Resource.setOrganization (f d) org) :
    Discreet f ctx (Store.select ctx t (Organizations.newResourcesStore t) noop) := by
  rcases Bool.eq_false_or_eq_true (hasServerContext ctx) with hserver | hserver
  · rw [Store.select_server hserver]
    exact ht
  · rcases hctx with hctx | ⟨org, horg'⟩
    · rw [hserver] at hctx
      cases hctx
    · rw [Store.select_organization hserver horg']
      exact ht.facade (validOrganization_of_has horg') org hid horg fun d => hset d org

theorem sources_discreet {ctx : Context} (hctx : Placed ctx) : Discreet redactSource ctx (Store.sources ctx) :=
  select_discreet hctx (bolt_sources_discreet ctx) (fun _ => rfl) (fun _ => rfl) fun _ _ => rfl

theorem servers_discreet {ctx : Context} (hctx : Placed ctx) : Discreet redactServer ctx (Store.servers ctx) :=
  select_discreet hctx (bolt_servers_discreet ctx) (fun _ => rfl) (fun _ => rfl) fun _ _ => rfl

theorem organizations_default_lockstep (ids : ℕ → String) (ctx : Context) : Lockstep Redacts Eq Eq
    ((Store.organizations ids ctx).defaultOrganization ctx) ((Store.organizations ids ctx).defaultOrganization ctx) := by
  have hbolt : Lockstep Redacts Eq Eq (Bolt.OrganizationsStore.defaultOrganization ctx)
      (Bolt.OrganizationsStore.defaultOrganization ctx) := .view fun db db' hdb => by
    subst hdb
    exact ResultRel.refl
  refine organizations_induction (C := fun s : OrganizationsStore Db =>
    Lockstep Redacts Eq Eq (s.defaultOrganization ctx) (s.defaultOrganization ctx)) ids ctx hbolt (fun org => ?_) (.fail rfl)
  exact .bind (fun _ _ _ => hbolt) (.ofExcept (P := Eq) ResultRel.refl)

/-! ### What is sent -/

def PostKapacitorRequest.redact (p : PostKapacitorRequest) : PostKapacitorRequest := { p with password := "" }

def PatchKapacitorRequest.redact (p : PatchKapacitorRequest) : PatchKapacitorRequest :=
  { p with password := p.password.map fun _ => "" }

def PostServiceRequest.redact (p : PostServiceRequest) : PostServiceRequest := { p with password := "" }

def PatchServiceRequest.redact (p : PatchServiceRequest) : PatchServiceRequest :=
  { p with password := p.password.map fun _ => "" }

/-- The request with the secrets of its body crossed out. -/
def ConnectionCall.redact : ConnectionCall → ConnectionCall
  | .newSource body => .newSource (body.map redactSource)
  | .updateSource body param => .updateSource (body.map redactSource) param
  | .newKapacitor body param => .newKapacitor (body.map PostKapacitorRequest.redact) param
  | .updateKapacitor body param kid => .updateKapacitor (body.map PatchKapacitorRequest.redact) param kid
  | .newService body param => .newService (body.map PostServiceRequest.redact) param
  | .updateService body param kid => .updateService (body.map PatchServiceRequest.redact) param kid
  | call => call

/-- A request as it prints with its secrets is not looked at. -/
def Outside.quiet (out : Outside) : Outside := { out with printed := "" }

def ConnectionMessage.redact (m : ConnectionMessage) : ConnectionMessage :=
  { m with out := m.out.quiet, call := m.call.redact }

/-! ### The handlers -/

section Handlers

variable {s : Service} {out : Outside} {ctx : Context} {kind : ServerKind} {param kid : String} {src req : Source} {srv : Server}

theorem sourceAuthenticationMethod_redact (out : Outside) (src : Source) :
    sourceAuthenticationMethod out (redactSource src) = sourceAuthenticationMethod out src := by
  unfold sourceAuthenticationMethod
  simp only [redactSource, ne_eq, redacted_eq_blank]

theorem withTelegraf_redact (src : Source) : withTelegraf (redactSource src) = redactSource (withTelegraf src) := by
  unfold withTelegraf
  rw [redactSource_telegraf]
  split <;> rfl

/-- A source is shown as it is with its secrets crossed out. -/
theorem newSourceResponse_redact (out : Outside) (src : Source) :
    newSourceResponse out (redactSource src) = newSourceResponse out src := by
  unfold newSourceResponse
  dsimp only
  rw [withTelegraf_redact, sourceAuthenticationMethod_redact]
  rfl

theorem validSourceRequest_redact (out : Outside) (src : Source) (org : String) :
    validSourceRequest out (redactSource src) org = (validSourceRequest out src org).map redactSource := by
  unfold validSourceRequest
  simp only [redactSource_url, redactSource_type, redactSource_organization]
  split_ifs
  · rfl
  · rfl
  all_goals
    rcases validURI out "source" src.url with e | ⟨⟩
    · rfl
    · rfl

theorem withUpdate_redact (src req : Source) :
    withUpdate (redactSource src) (redactSource req) = redactSource (withUpdate src req) := by
  unfold withUpdate redactSource
  simp only [ne_eq, redacted_eq_blank, Source.mk.injEq, true_and, and_true]
  split <;> rfl

theorem decode_lockstep {α β : Type} (f : α → β) (body : Option α) :
    Lockstep Redacts Eq (fun a b => b = f a) (decode body) (decode (body.map f)) := by
  cases body <;> exact .ofExcept rfl

theorem defaultOrganization_lockstep {f : Error → Response} :
    Lockstep Redacts Eq Eq (((Store.organizations s.ids ctx).defaultOrganization ctx).mapError f)
      (((Store.organizations s.ids ctx).defaultOrganization ctx).mapError f) :=
  .mapErrorEq (organizations_default_lockstep s.ids ctx)

theorem sourceInPath_lockstep (hctx : Placed ctx) (param : String) :
    Lockstep Redacts Eq (fun found found' => found' = (found.1, redactSource found.2))
      (sourceInPath ctx param) (sourceInPath ctx param) := by
  refine .bind (P := Eq) (fun id id' hid => ?_) (.ofExcept ResultRel.refl)
  subst hid
  refine .bind (fun src src' hsrc => ?_) (.mapErrorEq ((sources_discreet hctx).get id))
  subst hsrc
  exact .pure rfl

theorem newSource_lockstep (hctx : Placed ctx) (body : Option Source) :
    Lockstep Redacts Eq Eq (newSource s out body ctx) (newSource s out (body.map redactSource) ctx) := by
  refine .bind (fun src src' hsrc => ?_) (decode_lockstep redactSource body)
  subst hsrc
  refine .bind (fun org org' horg => ?_) defaultOrganization_lockstep
  subst horg
  refine .bind (P := fun src src' => src' = redactSource src) (fun src src' hsrc => ?_) (.ofExcept ?_)
  · subst hsrc
    refine .bind (P := Eq) (fun dbType dbType' hdbType => ?_) (.ofExcept ResultRel.refl)
    subst hdbType
    refine .bind (P := fun src src' => src' = redactSource src) (fun src src' hsrc => ?_) (.mapErrorNever ?_)
    · subst hsrc
      refine .pure ?_
      rw [newSourceResponse_redact]
    · rw [withTelegraf_redact]
      exact (sources_discreet hctx).add { withTelegraf src with type := dbType }
  · rw [validSourceRequest_redact]
    exact (ResultRel.map).mapError fun _ _ he => congrArg _ he

theorem updateSource_lockstep (hctx : Placed ctx) (body : Option Source) :
    Lockstep Redacts Eq Eq (updateSource s out body param ctx) (updateSource s out (body.map redactSource) param ctx) := by
  refine .bind (fun found found' hfound => ?_) (sourceInPath_lockstep hctx param)
  subst hfound
  refine .bind (fun req req' hreq => ?_) (decode_lockstep redactSource body)
  subst hreq
  refine .bind (fun org org' horg => ?_) defaultOrganization_lockstep
  subst horg
  refine .bind (P := fun src src' => src' = redactSource src) (fun src src' hsrc => ?_) (.ofExcept ?_)
  · subst hsrc
    refine .bind (P := Eq) (fun dbType dbType' hdbType => ?_) (.ofExcept ResultRel.refl)
    subst hdbType
    refine .bind (fun _ _ _ => .pure ?_) (.mapErrorEq ((sources_discreet hctx).update { src with type := dbType }))
    exact congrArg (Answer.one 200 none ∘ Displayed.source) (newSourceResponse_redact out { src with type := dbType }).symm
  · rw [withUpdate_redact, validSourceRequest_redact]
    exact ResultRel.map.mapError fun _ _ he => congrArg _ he

theorem sources_lockstep (hctx : Placed ctx) : Lockstep Redacts Eq Eq (sources out ctx) (sources out ctx) := by
  refine .bind (fun srcs srcs' hsrcs => .pure ?_) (.mapErrorEq (sources_discreet hctx).all)
  rw [hsrcs, List.map_map]
  refine congrArg Answer.all (List.map_congr_left fun src _ => ?_)
  exact congrArg Displayed.source (newSourceResponse_redact out src).symm

theorem sourcesID_lockstep (hctx : Placed ctx) (param : String) :
    Lockstep Redacts Eq Eq (sourcesID out param ctx) (sourcesID out param ctx) := by
  refine .bind (fun found found' hfound => .pure ?_) (sourceInPath_lockstep hctx param)
  subst hfound
  exact congrArg (Answer.one 200 none ∘ Displayed.source) (newSourceResponse_redact out found.2).symm

theorem sourceHealth_lockstep (hctx : Placed ctx) (param : String) :
    Lockstep Redacts Eq Eq (sourceHealth out param ctx) (sourceHealth out param ctx) :=
  .bind (fun _ _ _ => .ite Iff.rfl (.pure rfl) (.fail rfl)) (sourceInPath_lockstep hctx param)

theorem removeSrcsKapa_lockstep (hctx : Placed ctx) (srcID : ℤ) :
    Lockstep Redacts Eq Eq (removeSrcsKapa ctx srcID) (removeSrcsKapa ctx srcID) := by
  refine .bind (fun kapas kapas' hkapas => ?_) (servers_discreet hctx).all
  subst hkapas
  have hids : ((kapas.map redactServer).filter fun kapa => kapa.srcID = srcID).map Server.id =
      (kapas.filter fun kapa => kapa.srcID = srcID).map Server.id := by
    rw [List.filter_map, List.map_map]
    rfl
  rw [hids]
  exact .forEach (fun kapaID => (servers_discreet hctx).delete _) _

theorem removeSource_lockstep (hctx : Placed ctx) (param : String) :
    Lockstep Redacts Eq Eq (removeSource param ctx) (removeSource param ctx) := by
  refine .bind (P := Eq) (fun id id' hid => ?_) (.ofExcept ResultRel.refl)
  subst hid
  refine .bind (P := Eq) (fun _ _ _ => ?_) (.mapErrorEq ((sources_discreet hctx).delete _))
  exact .bind (P := Eq) (fun _ _ _ => .pure rfl) (.mapErrorEq (removeSrcsKapa_lockstep hctx id))

/-! ### The handlers of both kinds of servers -/

/-- Of what kind a server is and what is shown of it has nothing to do with its password. -/
structure DiscreetKind (kind : ServerKind) : Prop where
  holds : ∀ srv, kind.holds (redactServer srv) = kind.holds srv
  shown : ∀ srv, kind.shown (redactServer srv) = kind.shown srv

theorem kapacitorKind_discreet : DiscreetKind kapacitorKind := ⟨fun _ => rfl, fun _ => rfl⟩

theorem serviceKind_discreet : DiscreetKind serviceKind := ⟨fun _ => rfl, fun _ => rfl⟩

theorem serverInPath_lockstep (hctx : Placed ctx) (hkind : DiscreetKind kind) (param kid : String) :
    Lockstep Redacts Eq (fun found found' => found' = (found.1, redactServer found.2))
      (serverInPath kind ctx param kid) (serverInPath kind ctx param kid) := by
  refine .bind (P := Eq) (fun id id' hid => ?_) (.ofExcept ResultRel.refl)
  subst hid
  refine .bind (P := Eq) (fun srcID srcID' hsrcID => ?_) (.ofExcept ResultRel.refl)
  subst hsrcID
  refine .bind (fun srv srv' hsrv => ?_) (.mapErrorEq ((servers_discreet hctx).get id))
  subst hsrv
  refine .ite ?_ (.fail rfl) (.pure rfl)
  rw [hkind.holds]
  rfl

theorem serversOf_lockstep (hctx : Placed ctx) (hkind : DiscreetKind kind) (param : String) :
    Lockstep Redacts Eq Eq (serversOf kind param ctx) (serversOf kind param ctx) := by
  refine .bind (P := Eq) (fun srcID srcID' hsrcID => ?_) (.ofExcept ResultRel.refl)
  subst hsrcID
  refine .bind (fun srvs srvs' hsrvs => .pure ?_) (.mapErrorEq (servers_discreet hctx).all)
  subst hsrvs
  rw [List.filter_map, List.map_map]
  refine congrArg Answer.all ?_
  have hshown : kind.shown ∘ redactServer = kind.shown := funext hkind.shown
  rw [hshown]
  congr 2
  funext srv
  simp only [Function.comp_apply, hkind.holds]
  rfl

theorem serverID_lockstep (hctx : Placed ctx) (hkind : DiscreetKind kind) (param kid : String) :
    Lockstep Redacts Eq Eq (serverID kind param kid ctx) (serverID kind param kid ctx) := by
  refine .bind (fun found found' hfound => .pure ?_) (serverInPath_lockstep hctx hkind param kid)
  subst hfound
  exact congrArg (Answer.one 200 none) (hkind.shown found.2).symm

theorem removeServer_lockstep (hctx : Placed ctx) (hkind : DiscreetKind kind) (param kid : String) :
    Lockstep Redacts Eq Eq (removeServer kind param kid ctx) (removeServer kind param kid ctx) := by
  refine .bind (fun found found' hfound => ?_) (serverInPath_lockstep hctx hkind param kid)
  subst hfound
  exact .bind (P := Eq) (fun _ _ _ => .pure rfl) (.mapErrorEq ((servers_discreet hctx).delete found.2))

/-- The two requests may print differently: in a context with a store nothing is printed. -/
theorem storeServer_lockstep (hctx : Placed ctx) (hkind : DiscreetKind kind) (out' : Outside) {self : Server → String}
    (hself : ∀ srv, self (redactServer srv) = self srv) (srv : Server) :
    Lockstep Redacts Eq Eq (storeServer kind out ctx srv self) (storeServer kind out' ctx (redactServer srv) self) := by
  refine .bind (fun srv srv' hsrv => .pure ?_) (.mapErrorNever ((servers_discreet hctx).add srv))
  subst hsrv
  rw [hself, hkind.shown]

theorem replaceServer_lockstep (hctx : Placed ctx) (hkind : DiscreetKind kind) (id : ℤ) (srv : Server) :
    Lockstep Redacts Eq Eq (replaceServer kind ctx id srv) (replaceServer kind ctx id (redactServer srv)) := by
  refine .bind (P := Eq) (fun _ _ _ => .pure ?_) (.mapErrorEq ((servers_discreet hctx).update srv))
  rw [hkind.shown]

theorem patchKapacitor_redact (req : PatchKapacitorRequest) (srv : Server) :
    req.redact.patch (redactServer srv) = redactServer (req.patch srv) := by
  unfold PatchKapacitorRequest.redact PatchKapacitorRequest.patch redactServer
  cases req.password <;> rfl

theorem patchService_redact (req : PatchServiceRequest) (srv : Server) :
    req.redact.patch (redactServer srv) = redactServer (req.patch srv) := by
  unfold PatchServiceRequest.redact PatchServiceRequest.patch redactServer
  cases req.password <;> rfl

theorem newKapacitor_lockstep (hctx : Placed ctx) (body : Option PostKapacitorRequest) (param : String) :
    Lockstep Redacts Eq Eq (newKapacitor s out body param ctx)
      (newKapacitor s out.quiet (body.map PostKapacitorRequest.redact) param ctx) := by
  refine .bind (fun found found' hfound => ?_) (sourceInPath_lockstep hctx param)
  subst hfound
  refine .bind (fun req req' hreq => ?_) (decode_lockstep PostKapacitorRequest.redact body)
  subst hreq
  refine .bind (fun org org' horg => ?_) defaultOrganization_lockstep
  subst horg
  refine .bind (P := Eq) (fun valid valid' hvalid => ?_) (.ofExcept ResultRel.refl)
  subst hvalid
  exact storeServer_lockstep hctx kapacitorKind_discreet _ (fun _ => rfl) _

theorem newService_lockstep (hctx : Placed ctx) (body : Option PostServiceRequest) (param : String) :
    Lockstep Redacts Eq Eq (newService s out body param ctx)
      (newService s out.quiet (body.map PostServiceRequest.redact) param ctx) := by
  refine .bind (fun found found' hfound => ?_) (sourceInPath_lockstep hctx param)
  subst hfound
  refine .bind (fun req req' hreq => ?_) (decode_lockstep PostServiceRequest.redact body)
  subst hreq
  refine .bind (fun org org' horg => ?_) defaultOrganization_lockstep
  subst horg
  refine .bind (P := Eq) (fun valid valid' hvalid => ?_) (.ofExcept ResultRel.refl)
  subst hvalid
  refine .bind (P := Eq) (fun _ _ _ => ?_) (.ofExcept ResultRel.refl)
  exact storeServer_lockstep hctx serviceKind_discreet _ (fun _ => rfl) _

theorem updateKapacitor_lockstep (hctx : Placed ctx) (body : Option PatchKapacitorRequest) (param kid : String) :
    Lockstep Redacts Eq Eq (updateKapacitor out body param kid ctx)
      (updateKapacitor out (body.map PatchKapacitorRequest.redact) param kid ctx) := by
  refine .bind (fun found found' hfound => ?_) (serverInPath_lockstep hctx kapacitorKind_discreet param kid)
  subst hfound
  refine .bind (fun req req' hreq => ?_) (decode_lockstep PatchKapacitorRequest.redact body)
  subst hreq
  refine .bind (P := Eq) (fun _ _ _ => ?_) (.ofExcept ResultRel.refl)
  rw [patchKapacitor_redact]
  exact replaceServer_lockstep hctx kapacitorKind_discreet found.1 (req.patch found.2)

theorem updateService_lockstep (hctx : Placed ctx) (body : Option PatchServiceRequest) (param kid : String) :
    Lockstep Redacts Eq Eq (updateService out body param kid ctx)
      (updateService out (body.map PatchServiceRequest.redact) param kid ctx) := by
  refine .bind (fun found found' hfound => ?_) (serverInPath_lockstep hctx serviceKind_discreet param kid)
  subst hfound
  refine .bind (fun req req' hreq => ?_) (decode_lockstep PatchServiceRequest.redact body)
  subst hreq
  refine .bind (P := Eq) (fun _ _ _ => ?_) (.ofExcept ResultRel.refl)
  refine .bind (P := Eq) (fun _ _ _ => ?_) (.ofExcept ResultRel.refl)
  rw [patchService_redact]
  exact replaceServer_lockstep hctx serviceKind_discreet found.1 (req.patch found.2)

end Handlers

/-- A request and the request with its secrets crossed out, at a store and at the store
with its secrets crossed out. -/
theorem program_lockstep (s : Service) (m : ConnectionMessage) (hctx : Placed m.ctx) :
    Lockstep Redacts Eq Eq (m.program s) (m.redact.program s) := by
  obtain ⟨ctx, out, call⟩ := m
  cases call with
  | newSource body => exact newSource_lockstep hctx body
  | sources => exact sources_lockstep hctx
  | sourcesID param => exact sourcesID_lockstep hctx param
  | removeSource param => exact removeSource_lockstep hctx param
  | sourceHealth param => exact sourceHealth_lockstep hctx param
  | updateSource body param => exact updateSource_lockstep hctx body
  | newKapacitor body param => exact newKapacitor_lockstep hctx body param
  | kapacitors param => exact serversOf_lockstep hctx kapacitorKind_discreet param
  | kapacitorsID param kid => exact serverID_lockstep hctx kapacitorKind_discreet param kid
  | removeKapacitor param kid => exact removeServer_lockstep hctx kapacitorKind_discreet param kid
  | updateKapacitor body param kid => exact updateKapacitor_lockstep hctx body param kid
  | newService body param => exact newService_lockstep hctx body param
  | services param => exact serversOf_lockstep hctx serviceKind_discreet param
  | serviceID param kid => exact serverID_lockstep hctx serviceKind_discreet param kid
  | removeService param kid => exact removeServer_lockstep hctx serviceKind_discreet param kid
  | updateService body param kid => exact updateService_lockstep hctx body param kid

/-- Requests that are the same but for the secrets they send, at stores that are the
same but for the secrets they hold: however their transactions are interleaved, the same
requests have been answered, with the same answers, and the stores are the same but for
the secrets they hold. -/
theorem answers_without_secrets {ι : Type} [DecidableEq ι] (s : Service) {requests requests' : ι → ConnectionMessage}
    {db db' : Db} (hctx : ∀ i, Placed (requests i).ctx) (hrequests : ∀ i, (requests i).redact = (requests' i).redact)
    (hdb : db.redact = db'.redact) (sched : List ι) :
    let c := (Tx.Config.mk (fun i => (requests i).program s) db).run sched
    let c' := (Tx.Config.mk (fun i => (requests' i).program s) db').run sched
    c.store.redact = c'.store.redact ∧ ∀ i r, c.procs i = .ret r ↔ c'.procs i = .ret r := by
  intro c c'
  let crossed : Tx.Config ι Response Db Answer := ⟨fun i => (requests i).redact.program s, db.redact⟩
  have hctx' : ∀ i, Placed (requests' i).ctx := fun i => by
    have hsame : (requests i).redact.ctx = (requests' i).redact.ctx := by rw [hrequests i]
    exact hsame ▸ hctx i
  have hlock : ∀ i, Lockstep Redacts Eq Eq ((requests i).program s) (crossed.procs i) :=
    fun i => program_lockstep s (requests i) (hctx i)
  have hlock' : ∀ i, Lockstep Redacts Eq Eq ((requests' i).program s) (crossed.procs i) := fun i => by
    have h := program_lockstep s (requests' i) (hctx' i)
    rwa [← hrequests i] at h
  have hcrossed : Redacts db crossed.store := rfl
  obtain ⟨hstore, hprocs⟩ := Tx.Config.run_lockstep sched (c := ⟨fun i => (requests i).program s, db⟩) hcrossed hlock
  obtain ⟨hstore', hprocs'⟩ := Tx.Config.run_lockstep sched (c := ⟨fun i => (requests' i).program s, db'⟩) hdb hlock'
  refine ⟨hstore.symm.trans hstore', fun i r => ?_⟩
  exact (hprocs i).ret_iff.trans (hprocs' i).ret_iff.symm

theorem redact_exampleServersDb (password : String) : (exampleServersDb password).redact = exampleServersDb "" := by
  unfold exampleServersDb Db.redact
  simp only [Bucket.through_put]
  rfl

theorem answers_without_secrets_example :
    let c := (Tx.Config.mk (fun i => (exampleMessages "secret" i).program plainService)
      (exampleServersDb "one")).run [true, false, true, true]
    let c' := (Tx.Config.mk (fun i => (exampleMessages "hidden" i).program plainService)
      (exampleServersDb "two")).run [true, false, true, true]
    c.store.redact = c'.store.redact ∧ ∀ i r, c.procs i = .ret r ↔ c'.procs i = .ret r :=
  answers_without_secrets _ (fun i => by cases i <;> exact .inr ⟨"1", rfl⟩) (fun i => by cases i <;> rfl)
    (by rw [redact_exampleServersDb, redact_exampleServersDb]) [true, false, true, true]

end Server
end Chronograf
