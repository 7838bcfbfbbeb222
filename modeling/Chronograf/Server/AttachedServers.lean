/-
# Kapacitors and services hang on a source of their organization

A kapacitor or a service is added to a source of the organization, and a source
goes with its kapacitors and services. But who removes a source removes the
servers of its own organization only, while the facade hands it the sources of
every organization. So along a run of requests each server belongs to a stored
source of its organization exactly as long as nobody removes another
organization's source that has servers.

Key definitions: `Attached`, `Sound`, `ConnectionMessage.Orphans`, `runConnections`.
Key theorems: `sound_removeSource_iff`, `sound_afterConnection_iff`, `attached_iff`.
-/
import Chronograf.Lib.Runs
import Chronograf.Organizations.SideEffects
import Chronograf.Server.DashboardEffects
import Chronograf.Server.ServerIdentity

namespace Chronograf

namespace Organizations

variable {σ ρ ι : Type} [Resource ρ ι] [DecidableEq ι] {s : ResourcesStore σ ρ ι} {find : σ → ι → Option ρ}
  {org : String} {ctx : Context} {db : σ}

/-- What a facade shows under an ID is the organization's record. -/
theorem run_facade_get (org : String) (db : σ) (hs : Owned s find) (hctx : validOrganization ctx = .ok ()) (id : ι) :
    ∃ r, ((newResourcesStore s org).get ctx id).run db = (r, db) ∧
      ∀ d, r = .ok d ↔ find db id = some d ∧ Resource.organization d = org := by
  rcases hfind : find db id with _ | found
  · exact ⟨_, run_facade_get_none hs hctx hfind, fun d => iff_of_false nofun fun h => nomatch h.1⟩
  · by_cases horg : Resource.organization found = org
    · refine ⟨_, run_facade_get_own hs hctx hfind horg, fun d => ?_⟩
      rw [Except.ok.injEq, Option.some.injEq]
      exact ⟨fun h => ⟨h, h ▸ horg⟩, fun h => h.1⟩
    · refine ⟨_, run_facade_get_foreign hs hctx hfind horg, fun d => iff_of_false nofun fun h => ?_⟩
      obtain rfl := Option.some.inj h.1
      exact horg h.2

end Organizations

namespace Server

open Bolt Organizations

/-- Every server belongs to a stored source of its organization. -/
def Attached (db : Db) : Prop := ∀ srv ∈ db.servers.recs, ∃ src, db.sources.get srv.srcID = some src ∧ src.organization = srv.organization

/-- The sources are under numbers that were given out, and the servers belong to them. -/
structure Sound (db : Db) : Prop where
  issued : db.sources.Issued
  attached : Attached db

section Stores

variable {db : Db} {ctx : Context} {org : String}

theorem Attached.sources (h : Attached db) {b : Bucket Source}
    (hkept : ∀ id src, db.sources.get id = some src → ∃ src', b.get id = some src' ∧ src'.organization = src.organization) :
    Attached { db with sources := b } := by
  intro srv hsrv
  obtain ⟨src, hsrc, horg⟩ := h srv hsrv
  obtain ⟨src', hsrc', horg'⟩ := hkept _ src hsrc
  exact ⟨src', hsrc', horg'.trans horg⟩

theorem Attached.servers (h : Attached db) {c : Bucket Server} (hc : ∀ srv' ∈ c.recs,
    (∃ srv ∈ db.servers.recs, identity srv = identity srv') ∨
      ∃ src, db.sources.get srv'.srcID = some src ∧ src.organization = srv'.organization) :
    Attached { db with servers := c } := by
  intro srv' hsrv'
  rcases hc srv' hsrv' with ⟨srv, hsrv, hid⟩ | hnew
  · obtain ⟨src, hsrc, horg⟩ := h srv hsrv
    simp only [identity, Prod.mk.injEq] at hid
    obtain ⟨hsrcID, horganization, -⟩ := hid
    exact ⟨src, by rw [← hsrcID]; exact hsrc, horg.trans horganization⟩
  · exact hnew

/-! ### The transactions of sources -/

theorem issued_reset {b : Bucket Source} (hb : b.Issued) (src : Source) :
    (if src.default then SourcesStore.resetDefaultSource b else b).Issued ∧
      (if src.default then SourcesStore.resetDefaultSource b else b).seq = b.seq := by
  split
  · exact ⟨Bucket.Issued.sweep (fun _ => rfl) hb, Bucket.sweep_seq⟩
  · exact ⟨hb, rfl⟩

theorem issued_txAdd {b : Bucket Source} (hb : b.Issued) (src : Source) : (SourcesStore.txAdd b src).2.Issued := by
  obtain ⟨hissued, hseq⟩ := issued_reset hb.nextSequence src
  refine hissued.put fun n hn => ?_
  have hn' : n = b.seq + 1 := (Int.ofNat_inj.mp hn).symm
  rw [hn']
  exact le_of_eq hseq.symm

theorem issued_txUpdate {b b' : Bucket Source} {src : Source} (hb : b.Issued) (h : SourcesStore.txUpdate b src = .ok b') :
    b'.Issued := by
  unfold SourcesStore.txUpdate at h
  rcases htarget : b.get src.id with _ | target
  · rw [htarget] at h
    cases h
  · rw [htarget] at h
    obtain rfl := Except.ok.inj h
    obtain ⟨hissued, hseq⟩ := issued_reset hb src
    refine hissued.put fun n hn => ?_
    obtain ⟨hmem, hid⟩ := Bucket.get_some htarget
    rw [hseq]
    exact hb target hmem n (hid.trans hn)

theorem issued_setRandomDefault {b b' : Bucket Source} {src : Source} (hb : b.Issued)
    (h : SourcesStore.setRandomDefault b src = .ok b') : b'.Issued := by
  unfold SourcesStore.setRandomDefault at h
  split at h
  · cases h
  · split_ifs at h
    · split at h
      · obtain rfl := Except.ok.inj h
        exact hb
      · exact issued_txUpdate hb h
    · obtain rfl := Except.ok.inj h
      exact hb

theorem sound_add_source (ctx : Context) (hdb : Sound db) (d : Source) : Sound ((SourcesStore.add ctx d).run db).2 := by
  obtain ⟨d', hrun⟩ : ∃ d', (SourcesStore.add ctx d).run db =
      (.ok (SourcesStore.txAdd db.sources d').1, { db with sources := (SourcesStore.txAdd db.sources d').2 }) := by
    unfold SourcesStore.add
    rw [Tx.run_bind]
    exact ⟨_, Tx.run_update_ok rfl⟩
  rw [hrun]
  refine ⟨issued_txAdd hdb.issued d', hdb.attached.sources fun id src hsrc => ?_⟩
  have hid : id ≠ ofSeq (db.sources.seq + 1) := hdb.issued.ne_next hsrc
  rw [SourcesStore.get_txAdd, if_neg hid, hsrc, displaced_some]
  exact ⟨_, rfl, rfl⟩

/-- A source is replaced by one of its organization. -/
theorem sound_update_source (ctx : Context) (hdb : Sound db) {d old : Source} (hold : db.sources.get d.id = some old)
    (horg : d.organization = old.organization) : Sound ((SourcesStore.update ctx d).run db).2 := by
  obtain ⟨b', hb', hget⟩ := SourcesStore.txUpdate_of_some hold
  have hrun : (SourcesStore.update ctx d).run db = (.ok (), { db with sources := b' }) :=
    Tx.run_update_ok (by rw [hb']; rfl)
  rw [hrun]
  refine ⟨issued_txUpdate hdb.issued hb', hdb.attached.sources fun id src hsrc => ?_⟩
  rw [hget]
  split_ifs with hid
  · rw [hid, hold, Option.some.injEq] at hsrc
    exact ⟨d, rfl, hsrc ▸ horg⟩
  · rw [hsrc, displaced_some]
    exact ⟨_, rfl, rfl⟩

/-- The source is gone and the others belong to whom they belonged. -/
theorem run_delete_source (ctx : Context) {d old : Source} (hdb : db.sources.Issued) (hold : db.sources.get d.id = some old) :
    ∃ b : Bucket Source, (SourcesStore.delete ctx d).run db = (.ok (), { db with sources := b }) ∧ b.Issued ∧
      ∀ id, (b.get id).map Source.organization = if id = d.id then none else (db.sources.get id).map Source.organization := by
  obtain ⟨db', hrun, horg⟩ := SourcesStore.owned.run_delete ctx d db (by rw [id_source, hold]; exact Option.some_ne_none old)
  obtain ⟨b, hb⟩ : ∃ b, SourcesStore.setRandomDefault db.sources d = .ok b := by
    rcases hb : SourcesStore.setRandomDefault db.sources d with e | b
    · have herror : (SourcesStore.delete ctx d).run db = (.error e, db) := Tx.run_update_error (by rw [hb]; rfl)
      have hrun' : (SourcesStore.delete ctx d).run db = (.ok (), db') := hrun
      rw [herror] at hrun'
      cases (Prod.mk.inj hrun').1
    · exact ⟨b, rfl⟩
  have hdelete : (SourcesStore.delete ctx d).run db = (.ok (), { db with sources := b.delete d.id }) :=
    Tx.run_update_ok (by rw [hb]; rfl)
  refine ⟨b.delete d.id, hdelete, (issued_setRandomDefault hdb hb).delete, fun id => ?_⟩
  have hdb' : db' = { db with sources := b.delete d.id } := (Prod.mk.inj (hrun.symm.trans hdelete)).2
  have hid := horg id
  rw [hdb'] at hid
  exact hid

/-! ### The transactions of servers -/

/-- A server is added to a source of its organization. -/
theorem sound_add_server (ctx : Context) (hdb : Sound db) {d : Server}
    (hsrc : ∃ src, db.sources.get d.srcID = some src ∧ src.organization = d.organization) :
    Sound ((ServersStore.add ctx d).run db).2 := by
  have hrun : (ServersStore.add ctx d).run db =
      (.ok (ServersStore.txAdd db.servers d).1, { db with servers := (ServersStore.txAdd db.servers d).2 }) := rfl
  rw [hrun]
  refine ⟨hdb.issued, hdb.attached.servers fun srv' hsrv' => ?_⟩
  have hget : (ServersStore.txAdd db.servers d).2.get srv'.id = some srv' := Bucket.get_of_mem hsrv'
  rw [ServersStore.get_txAdd] at hget
  split_ifs at hget with hid
  · obtain rfl := Option.some.inj hget
    exact .inr hsrc
  · obtain ⟨old, hold, rfl⟩ := Option.map_eq_some_iff.mp hget
    exact .inl ⟨old, (Bucket.get_some hold).1, rfl⟩

theorem sound_update_server (ctx : Context) (hdb : Sound db) {d old : Server} (hold : db.servers.get d.id = some old)
    (hid : identity d = identity old) : Sound ((ServersStore.update ctx d).run db).2 := by
  obtain ⟨c, hc, hget⟩ := ServersStore.txUpdate_of_some hold
  have hrun : (ServersStore.update ctx d).run db = (.ok (), { db with servers := c }) :=
    Tx.run_update_ok (by rw [hc]; rfl)
  rw [hrun]
  refine ⟨hdb.issued, hdb.attached.servers fun srv' hsrv' => .inl ?_⟩
  have hsrv : c.get srv'.id = some srv' := Bucket.get_of_mem hsrv'
  rw [hget] at hsrv
  split_ifs at hsrv with hsame hactive
  · obtain rfl := Option.some.inj hsrv
    exact ⟨old, (Bucket.get_some hold).1, hid.symm⟩
  · obtain ⟨other, hother, rfl⟩ := Option.map_eq_some_iff.mp hsrv
    exact ⟨other, (Bucket.get_some hother).1, rfl⟩
  · exact ⟨srv', (Bucket.get_some hsrv).1, rfl⟩

theorem sound_delete_server (ctx : Context) (hdb : Sound db) (d : Server) : Sound ((ServersStore.delete ctx d).run db).2 := by
  have hrun : (ServersStore.delete ctx d).run db = (.ok (), { db with servers := db.servers.delete d.id }) := rfl
  rw [hrun]
  exact ⟨hdb.issued, hdb.attached.servers fun srv' hsrv' => .inl ⟨srv', (Bucket.mem_delete.mp hsrv').1, rfl⟩⟩

/-! ### The facades of a request -/

theorem InOrganization.nonblank (hctx : InOrganization ctx org) : org ≠ "" := by
  have horg := hctx.organization
  unfold hasOrganizationContext at horg
  split at horg
  · split_ifs at horg with hblank
    obtain rfl := Option.some.inj horg
    exact hblank
  · cases horg

theorem InOrganization.sources (hctx : InOrganization ctx org) :
    Store.sources ctx = newResourcesStore Bolt.sourcesStore org := Store.select_organization hctx.server hctx.organization

theorem InOrganization.servers (hctx : InOrganization ctx org) :
    Store.servers ctx = newResourcesStore Bolt.serversStore org := Store.select_organization hctx.server hctx.organization

theorem run_sources_get (hctx : InOrganization ctx org) (id : ℤ) (db : Db) :
    ∃ r, ((Store.sources ctx).get ctx id).run db = (r, db) ∧
      ∀ src, r = .ok src ↔ db.sources.get id = some src ∧ src.organization = org := by
  rw [hctx.sources]
  exact run_facade_get org db SourcesStore.owned hctx.valid id

theorem run_servers_get (hctx : InOrganization ctx org) (id : ℤ) (db : Db) :
    ∃ r, ((Store.servers ctx).get ctx id).run db = (r, db) ∧
      ∀ srv, r = .ok srv ↔ db.servers.get id = some srv ∧ srv.organization = org := by
  rw [hctx.servers]
  exact run_facade_get org db ServersStore.owned hctx.valid id

theorem sound_facade_add_source (hctx : InOrganization ctx org) (hdb : Sound db) (d : Source) :
    Sound (((Store.sources ctx).add ctx d).run db).2 := by
  rw [hctx.sources, run_facade_add hctx.valid]
  exact sound_add_source ctx hdb _

theorem sound_facade_update_source (hctx : InOrganization ctx org) (hdb : Sound db) {d old : Source}
    (hold : db.sources.get d.id = some old) (horg : d.organization = old.organization) :
    Sound (((Store.sources ctx).update ctx d).run db).2 := by
  rw [hctx.sources, run_facade_update org SourcesStore.owned hctx.valid hold]
  exact sound_update_source ctx hdb hold horg

theorem sound_facade_add_server (hctx : InOrganization ctx org) (hdb : Sound db) {d : Server}
    (hsrc : ∃ src, db.sources.get d.srcID = some src ∧ src.organization = org) :
    Sound (((Store.servers ctx).add ctx d).run db).2 := by
  rw [hctx.servers, run_facade_add hctx.valid]
  exact sound_add_server ctx hdb hsrc

theorem sound_facade_update_server (hctx : InOrganization ctx org) (hdb : Sound db) {d old : Server}
    (hold : db.servers.get d.id = some old) (hid : identity d = identity old) :
    Sound (((Store.servers ctx).update ctx d).run db).2 := by
  rw [hctx.servers, run_facade_update org ServersStore.owned hctx.valid hold]
  exact sound_update_server ctx hdb hold hid

theorem sound_facade_delete_server (hctx : InOrganization ctx org) (hdb : Sound db) (d : Server) :
    Sound (((Store.servers ctx).delete ctx d).run db).2 := by
  rw [hctx.servers]
  rcases hold : db.servers.get d.id with _ | old
  · rw [run_facade_delete_none ServersStore.owned hctx.valid hold]
    exact hdb
  · rw [run_facade_delete ServersStore.owned hctx.valid hold]
    exact sound_delete_server ctx hdb old

end Stores

/-! ### What the handlers find -/

section Handlers

variable {s : Service} {out : Outside} {ctx : Context} {org : String} {db : Db} {kind : ServerKind} {param kid : String}

/-- The source in the path is the organization's. -/
theorem run_sourceInPath (hctx : InOrganization ctx org) (param : String) (db : Db) :
    ∃ r, (sourceInPath ctx param).run db = (r, db) ∧
      ∀ found, r = .ok found → db.sources.get found.1 = some found.2 ∧ found.2.organization = org := by
  unfold sourceInPath
  rcases paramID param with e | id
  · exact ⟨_, rfl, nofun⟩
  · obtain ⟨r, hrun, hr⟩ := run_sources_get hctx id db
    show ∃ r, ((((Store.sources ctx).get ctx id).mapError fun _ => _) >>= _).run db = (r, db) ∧ _
    rcases r with e | src
    · rw [Tx.run_bind, Tx.run_mapError, hrun]
      exact ⟨_, rfl, nofun⟩
    · rw [Tx.run_bind, Tx.run_mapError, hrun]
      refine ⟨_, rfl, fun found hfound => ?_⟩
      obtain rfl := Except.ok.inj hfound
      exact (hr src).mp rfl

/-- The server in the path is the organization's and of the kind. -/
theorem run_serverInPath (hctx : InOrganization ctx org) (kind : ServerKind) (param kid : String) (db : Db) :
    ∃ r, (serverInPath kind ctx param kid).run db = (r, db) ∧
      ∀ found, r = .ok found → db.servers.get found.2.id = some found.2 ∧ kind.holds found.2 = true := by
  unfold serverInPath
  rcases paramID kid with e | id
  · exact ⟨_, rfl, nofun⟩
  · rcases paramID param with e | srcID
    · exact ⟨_, rfl, nofun⟩
    · obtain ⟨r, hrun, hr⟩ := run_servers_get hctx id db
      show ∃ r, ((((Store.servers ctx).get ctx id).mapError fun _ => _) >>= _).run db = (r, db) ∧ _
      rcases r with e | srv
      · rw [Tx.run_bind, Tx.run_mapError, hrun]
        exact ⟨_, rfl, nofun⟩
      · rw [Tx.run_bind, Tx.run_mapError, hrun]
        obtain ⟨hget, -⟩ := (hr srv).mp rfl
        have hid : srv.id = id := (Bucket.get_some hget).2
        dsimp only [Except.mapError]
        split_ifs with hkind
        · exact ⟨_, rfl, nofun⟩
        · refine ⟨_, rfl, fun found hfound => ?_⟩
          obtain rfl := Except.ok.inj hfound
          rw [not_or, not_not, not_not] at hkind
          exact ⟨by rw [hid]; exact hget, hkind.2⟩

/-- A program after one that only looks. -/
theorem sound_after_look {α : Type} {p : Tx Response Db α} {f : α → Tx Response Db Answer} {F : α → Prop} (hdb : Sound db)
    (hp : ∃ r, p.run db = (r, db) ∧ ∀ a, r = .ok a → F a) (hf : ∀ a, F a → Sound ((f a).run db).2) :
    Sound ((p >>= f).run db).2 := by
  obtain ⟨r, hrun, hr⟩ := hp
  refine Tx.leaves_bind (by rw [hrun]) hdb fun a ha => hf a (hr a ?_)
  rw [hrun] at ha
  exact ha

theorem sound_newSource (hctx : InOrganization ctx org) (hdb : Sound db) (body : Option Source) :
    Sound ((newSource s out body ctx).run db).2 := by
  refine Tx.leaves_bind rfl hdb fun src _ => ?_
  refine Tx.leaves_mapError_bind (organizations_default_reads s.ids ctx db) hdb fun defaultOrg _ => ?_
  refine Tx.leaves_ofExcept_bind hdb fun src _ => Tx.leaves_ofExcept_bind hdb fun dbType _ => ?_
  exact Tx.leaves_write (fun _ _ => rfl) (sound_facade_add_source hctx hdb _)

/-- The organization of a stored source is not blank, so the check leaves it. -/
theorem organization_of_valid {src src' : Source} (h : validSourceRequest out src org = .ok src') (hsrc : src.organization ≠ "") :
    src'.organization = src.organization ∧ src'.id = src.id := by
  unfold validSourceRequest at h
  split_ifs at h
  · obtain ⟨⟨⟩, -, h⟩ := Except.bind_ok_iff.mp h
    obtain rfl := Except.ok.inj h
    exact ⟨rfl, rfl⟩

theorem sound_updateSource (hctx : InOrganization ctx org) (hdb : Sound db) (body : Option Source) (param : String) :
    Sound ((updateSource s out body param ctx).run db).2 := by
  refine sound_after_look hdb (run_sourceInPath hctx param db) fun found hfound => ?_
  refine Tx.leaves_bind rfl hdb fun req _ => ?_
  refine Tx.leaves_mapError_bind (organizations_default_reads s.ids ctx db) hdb fun defaultOrg _ => ?_
  refine Tx.leaves_ofExcept_bind hdb fun src hsrc => Tx.leaves_ofExcept_bind hdb fun dbType _ => ?_
  refine Tx.leaves_write (fun _ _ => rfl) ?_
  obtain ⟨hget, horg⟩ := hfound
  have hblank : (withUpdate found.2 req).organization ≠ "" := by
    show found.2.organization ≠ ""
    rw [horg]
    exact hctx.nonblank
  obtain ⟨horg', hid'⟩ := organization_of_valid (Tx.mapError_eq_ok.mp hsrc) hblank
  have hid : found.2.id = found.1 := (Bucket.get_some hget).2
  have hstored : db.sources.get src.id = some found.2 := by
    rw [hid', show (withUpdate found.2 req).id = found.1 from hid, hget]
  exact sound_facade_update_source hctx hdb hstored horg'

theorem sound_storeServer (hctx : InOrganization ctx org) (hdb : Sound db) (srv : Server) (self : Server → String)
    (hsrc : ∃ src, db.sources.get srv.srcID = some src ∧ src.organization = org) :
    Sound ((storeServer kind out ctx srv self).run db).2 :=
  Tx.leaves_write (fun _ _ => rfl) (sound_facade_add_server hctx hdb hsrc)

theorem sound_newKapacitor (hctx : InOrganization ctx org) (hdb : Sound db) (body : Option PostKapacitorRequest) (param : String) :
    Sound ((newKapacitor s out body param ctx).run db).2 := by
  refine sound_after_look hdb (run_sourceInPath hctx param db) fun found hfound => ?_
  refine Tx.leaves_bind rfl hdb fun req _ => ?_
  refine Tx.leaves_mapError_bind (organizations_default_reads s.ids ctx db) hdb fun defaultOrg _ => ?_
  exact Tx.leaves_ofExcept_bind hdb fun valid _ => sound_storeServer hctx hdb _ _ ⟨found.2, hfound⟩

theorem sound_newService (hctx : InOrganization ctx org) (hdb : Sound db) (body : Option PostServiceRequest) (param : String) :
    Sound ((newService s out body param ctx).run db).2 := by
  refine sound_after_look hdb (run_sourceInPath hctx param db) fun found hfound => ?_
  refine Tx.leaves_bind rfl hdb fun req _ => ?_
  refine Tx.leaves_mapError_bind (organizations_default_reads s.ids ctx db) hdb fun defaultOrg _ => ?_
  refine Tx.leaves_ofExcept_bind hdb fun valid _ => Tx.leaves_bind rfl hdb fun _ _ => ?_
  exact sound_storeServer hctx hdb _ _ ⟨found.2, hfound⟩

theorem sound_removeServer (hctx : InOrganization ctx org) (hdb : Sound db) (param kid : String) :
    Sound ((removeServer kind param kid ctx).run db).2 :=
  sound_after_look hdb (run_serverInPath hctx kind param kid db) fun found _ =>
    Tx.leaves_write (fun _ _ => rfl) (sound_facade_delete_server hctx hdb found.2)

theorem sound_replaceServer (hctx : InOrganization ctx org) (hdb : Sound db) (id : ℤ) {srv old : Server}
    (hold : db.servers.get srv.id = some old) (hid : identity srv = identity old) :
    Sound ((replaceServer kind ctx id srv).run db).2 :=
  Tx.leaves_write (fun _ _ => rfl) (sound_facade_update_server hctx hdb hold hid)

theorem sound_updateKapacitor (hctx : InOrganization ctx org) (hdb : Sound db) (body : Option PatchKapacitorRequest)
    (param kid : String) : Sound ((updateKapacitor out body param kid ctx).run db).2 := by
  refine sound_after_look hdb (run_serverInPath hctx kapacitorKind param kid db) fun found hfound => ?_
  refine Tx.leaves_bind rfl hdb fun req _ => Tx.leaves_ofExcept_bind hdb fun _ _ => ?_
  exact sound_replaceServer hctx hdb found.1 hfound.1 rfl

theorem sound_updateService (hctx : InOrganization ctx org) (hdb : Sound db) (body : Option PatchServiceRequest)
    (param kid : String) : Sound ((updateService out body param kid ctx).run db).2 := by
  refine sound_after_look hdb (run_serverInPath hctx serviceKind param kid db) fun found hfound => ?_
  refine Tx.leaves_bind rfl hdb fun req _ => Tx.leaves_ofExcept_bind hdb fun _ hvalid => Tx.leaves_bind rfl hdb fun _ _ => ?_
  exact sound_replaceServer hctx hdb found.1 hfound.1 (identity_patchService (Tx.mapError_eq_ok.mp hvalid) hfound.2)

/-! ### Removing a source -/

/-- Deleting servers one after the other. -/
theorem run_deleteServers (hctx : InOrganization ctx org) : ∀ (ks : List ℤ) (db : Db), ks.Nodup →
    (∀ k ∈ ks, db.servers.get k ≠ none) →
    ∃ c : Bucket Server, (Tx.forEach ks fun k => (Store.servers ctx).delete ctx ⟨k, 0, "", "", "", "", false, false, "", "", ""⟩).run db =
      (.ok (), { db with servers := c }) ∧ ∀ srv, srv ∈ c.recs ↔ srv ∈ db.servers.recs ∧ srv.id ∉ ks
  | [], db, _, _ => ⟨db.servers, rfl, fun srv => by simp⟩
  | k :: ks, db, hnodup, hstored => by
    obtain ⟨hk, hnodup⟩ := List.nodup_cons.mp hnodup
    obtain ⟨old, hold⟩ := Option.ne_none_iff_exists'.mp (hstored k List.mem_cons_self)
    have hid : old.id = k := (Bucket.get_some hold).2
    have hdelete : ((Store.servers ctx).delete ctx ⟨k, 0, "", "", "", "", false, false, "", "", ""⟩).run db =
        (.ok (), { db with servers := db.servers.delete old.id }) := by
      rw [hctx.servers, run_facade_delete ServersStore.owned hctx.valid (show db.servers.get k = some old from hold)]
      rfl
    rw [hid] at hdelete
    have hstored' : ∀ k' ∈ ks, (db.servers.delete k).get k' ≠ none := by
      intro k' hk'
      rw [Bucket.get_delete, if_neg (fun heq : k' = k => hk (heq ▸ hk'))]
      exact hstored k' (List.mem_cons_of_mem k hk')
    obtain ⟨c, hrun, hc⟩ := run_deleteServers hctx ks { db with servers := db.servers.delete k } hnodup hstored'
    refine ⟨c, (Tx.run_bind_ok hdelete).trans hrun, fun srv => ?_⟩
    rw [hc, Bucket.mem_delete, List.mem_cons, not_or, and_assoc]
    rfl

/-- The servers of the source that the organization sees are gone. -/
theorem run_removeSrcsKapa (hctx : InOrganization ctx org) (id : ℤ) (db : Db) :
    ∃ c : Bucket Server, (removeSrcsKapa ctx id).run db = (.ok (), { db with servers := c }) ∧
      ∀ srv, srv ∈ c.recs ↔ srv ∈ db.servers.recs ∧ ¬(srv.srcID = id ∧ srv.organization = org) := by
  let seen := (db.servers.recs.filter fun srv => srv.organization = org).filter fun kapa => kapa.srcID = id
  have hseen : ∀ srv, srv ∈ seen ↔ srv ∈ db.servers.recs ∧ srv.srcID = id ∧ srv.organization = org := by
    intro srv
    simp only [seen, List.mem_filter, decide_eq_true_eq]
    tauto
  have hnodup : (seen.map Server.id).Nodup :=
    db.servers.nodup_keys.sublist ((List.filter_sublist.trans List.filter_sublist).map _)
  have hstored : ∀ k ∈ seen.map Server.id, db.servers.get k ≠ none := by
    intro k hk
    obtain ⟨srv, hsrv, rfl⟩ := List.mem_map.mp hk
    rw [show db.servers.get srv.id = some srv from Bucket.get_of_mem ((hseen srv).mp hsrv).1]
    exact Option.some_ne_none srv
  have hall : ((Store.servers ctx).all ctx).run db = (.ok (db.servers.recs.filter fun srv => srv.organization = org), db) := by
    rw [hctx.servers, run_facade_all_filter hctx.valid (show (serversStore.all ctx).run db = (.ok db.servers.recs, db) from rfl)]
    rfl
  obtain ⟨c, hrun, hc⟩ := run_deleteServers hctx (seen.map Server.id) db hnodup hstored
  refine ⟨c, (Tx.run_bind_ok hall).trans hrun, fun srv => ?_⟩
  rw [hc]
  refine and_congr_right fun hsrv => not_congr ?_
  rw [List.mem_map]
  constructor
  · rintro ⟨other, hother, heq⟩
    obtain ⟨hmem, hother⟩ := (hseen other).mp hother
    rw [← Bucket.eq_of_key hmem hsrv heq]
    exact hother
  · exact fun h => ⟨srv, (hseen srv).mpr ⟨hsrv, h⟩, rfl⟩

/-- After a source is removed the servers are attached to sources exactly when those of
the source were all the organization's. -/
theorem sound_removeSource_iff (hctx : InOrganization ctx org) (hdb : Sound db) {id : ℤ} (hparam : paramID param = .ok id) :
    Sound ((removeSource param ctx).run db).2 ↔ ∀ srv ∈ db.servers.recs, srv.srcID = id → srv.organization = org := by
  have hprogram : removeSource param ctx = (do
      ((Store.sources ctx).delete ctx ⟨id, "", "", "", "", "", "", "", false, false, "", "", "", ""⟩).mapError fun err =>
        if err = .errSourceNotFound then .notFound (Int.repr id) else .unknownErrorWithMessage err
      (removeSrcsKapa ctx id).mapError .unknownErrorWithMessage
      pure .noContent) := by
    unfold removeSource
    rw [hparam]
    rfl
  rw [hprogram]
  rcases hsrc : db.sources.get id with _ | src
  · -- nothing is removed, and no server was attached to nothing
    have hrun : ((Store.sources ctx).delete ctx ⟨id, "", "", "", "", "", "", "", false, false, "", "", "", ""⟩).run db =
        (.error .errSourceNotFound, db) := by
      rw [hctx.sources]
      exact run_facade_delete_none SourcesStore.owned hctx.valid hsrc
    rw [Tx.run_bind, Tx.run_mapError, hrun]
    refine iff_of_true hdb fun srv hsrv hid => ?_
    obtain ⟨found, hfound, -⟩ := hdb.attached srv hsrv
    rw [hid, hsrc] at hfound
    cases hfound
  · have hid : src.id = id := (Bucket.get_some hsrc).2
    obtain ⟨b, hdelete, hissued, hb⟩ := run_delete_source ctx (d := src) hdb.issued (by rw [hid]; exact hsrc)
    have hrun : ((Store.sources ctx).delete ctx ⟨id, "", "", "", "", "", "", "", false, false, "", "", "", ""⟩).run db =
        (.ok (), { db with sources := b }) := by
      rw [hctx.sources, run_facade_delete SourcesStore.owned hctx.valid hsrc]
      exact hdelete
    obtain ⟨c, hkapas, hc⟩ := run_removeSrcsKapa hctx id { db with sources := b }
    rw [Tx.run_bind, Tx.run_mapError, hrun]
    show Sound ((((removeSrcsKapa ctx id).mapError _) >>= _).run { db with sources := b }).2 ↔ _
    rw [Tx.run_bind, Tx.run_mapError, hkapas]
    show Sound { db with sources := b, servers := c } ↔ _
    rw [hid] at hb
    constructor
    · intro h srv hsrv hsrvID
      by_contra horg
      obtain ⟨found, hfound, -⟩ := h.attached srv ((hc srv).mpr ⟨hsrv, fun hown => horg hown.2⟩)
      have hgone := hb srv.srcID
      rw [if_pos hsrvID, show b.get srv.srcID = some found from hfound] at hgone
      cases hgone
    · intro h
      refine ⟨hissued, fun srv hsrv => ?_⟩
      obtain ⟨hstored, hkept⟩ := (hc srv).mp hsrv
      have hother : srv.srcID ≠ id := fun heq => hkept ⟨heq, h srv hstored heq⟩
      obtain ⟨found, hfound, horg⟩ := hdb.attached srv hstored
      have hsame := hb srv.srcID
      rw [if_neg hother, hfound] at hsame
      obtain ⟨found', hfound', horg'⟩ := Option.map_eq_some_iff.mp hsame
      exact ⟨found', hfound', horg'.trans horg⟩

end Handlers

/-! ### Runs -/

/-- The request removes a source that has servers of another organization. -/
def ConnectionMessage.Orphans (m : ConnectionMessage) (db : Db) : Prop :=
  ∃ org param id, hasOrganizationContext m.ctx = some org ∧ m.call = .removeSource param ∧ paramID param = .ok id ∧
    ∃ srv ∈ db.servers.recs, srv.srcID = id ∧ srv.organization ≠ org

/-- The store after the request was handled alone. -/
def afterConnection (s : Service) (db : Db) (m : ConnectionMessage) : Db := ((m.program s).run db).2

theorem sound_of_reads {p : Tx Response Db Answer} {db : Db} (hdb : Sound db) (hp : Tx.Reads p) : Sound (p.run db).2 := by
  rw [hp db]
  exact hdb

theorem sources_all_reads (ctx : Context) : Tx.Reads ((Store.sources ctx).all ctx) :=
  select_induction (C := fun s : SourcesStore Db => Tx.Reads (s.all ctx)) ctx .view
    (fun _ => .bind .ofExcept fun _ => .bind .view fun _ => .pure) .fail

theorem servers_all_reads (ctx : Context) : Tx.Reads ((Store.servers ctx).all ctx) :=
  select_induction (C := fun s : ServersStore Db => Tx.Reads (s.all ctx)) ctx .view
    (fun _ => .bind .ofExcept fun _ => .bind .view fun _ => .pure) .fail

/-- One request leaves the servers attached unless it orphans some. -/
theorem sound_afterConnection_iff (s : Service) (m : ConnectionMessage) {org : String} (hctx : InOrganization m.ctx org) {db : Db}
    (hdb : Sound db) : Sound (afterConnection s db m) ↔ ¬ m.Orphans db := by
  have hkept : (∀ param, m.call ≠ .removeSource param) → Sound (afterConnection s db m) →
      (Sound (afterConnection s db m) ↔ ¬ m.Orphans db) := fun hcall hsound =>
    iff_of_true hsound fun ⟨_, param, _, _, h, _⟩ => hcall param h
  obtain ⟨ctx, out, call⟩ := m
  cases call with
  | newSource body => exact hkept nofun (sound_newSource hctx hdb body)
  | sources => exact hkept nofun (sound_of_reads hdb (.bind (.mapError (sources_all_reads ctx)) fun _ => .pure))
  | sourcesID param => exact hkept nofun (sound_after_look hdb (run_sourceInPath hctx param db) fun _ _ => hdb)
  | removeSource param =>
    rcases hparam : paramID param with e | id
    · refine iff_of_true ?_ fun ⟨_, _, _, _, hcall, hid, _⟩ => ?_
      · show Sound ((removeSource param ctx).run db).2
        unfold removeSource
        rw [hparam]
        exact hdb
      · obtain rfl := ConnectionCall.removeSource.inj hcall
        rw [hparam] at hid
        cases hid
    · refine (sound_removeSource_iff hctx hdb hparam).trans ⟨?_, ?_⟩
      · rintro h ⟨_, _, id', horg, hcall, hid, srv, hsrv, hsrvID, hne⟩
        obtain rfl := ConnectionCall.removeSource.inj hcall
        obtain rfl := Except.ok.inj (hparam.symm.trans hid)
        obtain rfl := Option.some.inj (hctx.organization.symm.trans horg)
        exact hne (h srv hsrv hsrvID)
      · intro h srv hsrv hsrvID
        by_contra hne
        exact h ⟨org, param, id, hctx.organization, rfl, hparam, srv, hsrv, hsrvID, hne⟩
  | sourceHealth param =>
    refine hkept nofun (sound_after_look hdb (run_sourceInPath hctx param db) fun _ _ => ?_)
    exact sound_of_reads hdb (.ite .pure .fail)
  | updateSource body param => exact hkept nofun (sound_updateSource hctx hdb body param)
  | newKapacitor body param => exact hkept nofun (sound_newKapacitor hctx hdb body param)
  | kapacitors param => exact hkept nofun (sound_of_reads hdb (.bind .ofExcept fun _ => .bind (.mapError (servers_all_reads ctx)) fun _ => .pure))
  | kapacitorsID param kid => exact hkept nofun (sound_after_look hdb (run_serverInPath hctx kapacitorKind param kid db) fun _ _ => hdb)
  | removeKapacitor param kid => exact hkept nofun (sound_removeServer hctx hdb param kid)
  | updateKapacitor body param kid => exact hkept nofun (sound_updateKapacitor hctx hdb body param kid)
  | newService body param => exact hkept nofun (sound_newService hctx hdb body param)
  | services param => exact hkept nofun (sound_of_reads hdb (.bind .ofExcept fun _ => .bind (.mapError (servers_all_reads ctx)) fun _ => .pure))
  | serviceID param kid => exact hkept nofun (sound_after_look hdb (run_serverInPath hctx serviceKind param kid db) fun _ _ => hdb)
  | removeService param kid => exact hkept nofun (sound_removeServer hctx hdb param kid)
  | updateService body param kid => exact hkept nofun (sound_updateService hctx hdb body param kid)

/-- A request of someone in an organization. -/
structure PlacedMessage extends ConnectionMessage where
  placed : ∃ org, InOrganization ctx org

/-- The store after the requests, handled one after the other. -/
def runConnections (s : Service) (db : Db) (ms : List PlacedMessage) : Db :=
  ms.foldl (fun db m => afterConnection s db m.toConnectionMessage) db

/-- Somebody of the organization "2" removes the source 1. -/
def exampleRemoval : PlacedMessage :=
  ⟨⟨{ organization := some "2" }, exampleOutside, .removeSource "1"⟩, ⟨"2", rfl, rfl⟩⟩

end Server
end Chronograf
