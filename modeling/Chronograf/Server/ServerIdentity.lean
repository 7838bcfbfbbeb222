/-
# What a server is, it stays

Every request that changes a server reads it first and writes it whole later,
and others may work at the store in between. Still, whatever requests are
served at once, no server comes to belong to another source or organization,
and no kapacitor becomes a service or the other way round: a transaction that
writes a server under an ID writes the source, the organization and the kind it
found there, and these never change under an ID once given out.

Key definitions: `identity`, `SameServers`, `Known`.
Key theorems: `connectionCall_among`, `servers_keep_identity`.
-/
import Chronograf.Lib.Checks
import Chronograf.Lib.Interleaving
import Chronograf.Server.Reads
import Chronograf.Server.Connections

namespace Chronograf
namespace Server

open Bolt.ServersStore (inactive)
open Tx (Among Stable Throughout)

/-- The source and the organization of a server, and whether it is a kapacitor. -/
def identity (srv : Server) : ℤ × String × Bool := (srv.srcID, srv.organization, kapacitorKind.holds srv)

/-- A server stored later is new, or it is what was stored under its ID before. -/
structure SameServers (db db' : Db) : Prop where
  issued : db.servers.Issued → db'.servers.Issued
  seq : db.servers.seq ≤ db'.servers.seq
  stored : ∀ id srv', db'.servers.get id = some srv' →
    (∃ srv, db.servers.get id = some srv ∧ identity srv = identity srv') ∨ (db.servers.seq : ℤ) < id

/-- The ID is given out, and a server under it has the identity `i`. -/
structure Known (id : ℤ) (i : ℤ × String × Bool) (db : Db) : Prop where
  issued : db.servers.Issued
  given : id ≤ db.servers.seq
  identity : ∀ srv, db.servers.get id = some srv → identity srv = i

theorem SameServers.of_servers_eq {db db' : Db} (h : db'.servers = db.servers) : SameServers db db' where
  issued hdb := by rwa [h]
  seq := by rw [h]
  stored id srv' hsrv := .inl ⟨srv', by rwa [← h], rfl⟩

instance : IsPreorder Db SameServers where
  refl _ := .of_servers_eq rfl
  trans db mid db' h h' := by
    refine ⟨fun hdb => h'.issued (h.issued hdb), h.seq.trans h'.seq, fun id srv' hsrv' => ?_⟩
    rcases h'.stored id srv' hsrv' with ⟨srv, hsrv, hid⟩ | hnew
    · rcases h.stored id srv hsrv with ⟨srv₀, hsrv₀, hid₀⟩ | hnew
      · exact .inl ⟨srv₀, hsrv₀, hid₀.trans hid⟩
      · exact .inr hnew
    · exact .inr (lt_of_le_of_lt (Int.ofNat_le.mpr h.seq) hnew)

theorem issued_stable : Stable SameServers fun db => db.servers.Issued := fun _ _ h => h.issued

theorem known_stable (id : ℤ) (i : ℤ × String × Bool) : Stable SameServers (Known id i) := by
  intro db db' h hknown
  refine ⟨h.issued hknown.issued, hknown.given.trans (Int.ofNat_le.mpr h.seq), fun srv' hsrv' => ?_⟩
  rcases h.stored id srv' hsrv' with ⟨srv, hsrv, hid⟩ | hnew
  · exact hid.symm.trans (hknown.identity srv hsrv)
  · exact absurd hknown.given (not_le_of_gt hnew)

/-- What is read of a server stays known. -/
theorem known_of_get {db : Db} (hdb : db.servers.Issued) {id : ℤ} {srv : Server} (h : db.servers.get id = some srv) :
    Known id (identity srv) db where
  issued := hdb
  given := by
    obtain ⟨hmem, hid⟩ := Bucket.get_some h
    rcases id with n | n
    · exact Int.ofNat_le.mpr (hdb srv hmem n hid)
    · exact (Int.negSucc_lt_zero n).le.trans (Int.natCast_nonneg _)
  identity srv' hsrv' := by rw [Option.some.inj (h.symm.trans hsrv')]

/-! ### The transactions of the store -/

theorem identity_inactive (srv : Server) : identity (inactive srv) = identity srv := rfl

theorem sameServers_txAdd (db : Db) (srv : Server) :
    SameServers db { db with servers := (Bolt.ServersStore.txAdd db.servers srv).2 } where
  issued hdb := by
    have hnext : (Bolt.ServersStore.resetActiveServer db.servers.nextSequence).Issued := Bucket.Issued.sweep (fun _ => rfl) hdb.nextSequence
    refine hnext.put fun n hn => ?_
    have hseq : n = db.servers.seq + 1 := (Int.ofNat_inj.mp hn).symm
    have hsweep : (Bolt.ServersStore.resetActiveServer db.servers.nextSequence).seq = db.servers.seq + 1 := Bucket.sweep_seq
    rw [hseq, hsweep]
  seq := by
    have hsweep : (Bolt.ServersStore.resetActiveServer db.servers.nextSequence).seq = db.servers.seq + 1 := Bucket.sweep_seq
    show db.servers.seq ≤ (Bucket.put _ _).seq
    rw [Bucket.put_seq, hsweep]
    exact Nat.le_succ _
  stored id srv' hsrv' := by
    have hget : (Bolt.ServersStore.txAdd db.servers srv).2.get id = some srv' := hsrv'
    rw [Bolt.ServersStore.get_txAdd] at hget
    split_ifs at hget with hid
    · refine .inr ?_
      rw [hid]
      exact Int.ofNat_lt.mpr (Nat.lt_succ_self _)
    · obtain ⟨old, hold, rfl⟩ := Option.map_eq_some_iff.mp hget
      exact .inl ⟨old, hold, (identity_inactive old).symm⟩

theorem sameServers_delete (db : Db) (id : ℤ) : SameServers db { db with servers := db.servers.delete id } where
  issued := Bucket.Issued.delete
  seq := le_refl _
  stored k srv' hsrv' := by
    have hget : (db.servers.delete id).get k = some srv' := hsrv'
    rw [Bucket.get_delete] at hget
    split_ifs at hget
    exact .inl ⟨srv', hget, rfl⟩

theorem sameServers_txUpdate {db : Db} {srv : Server} {b : Bucket Server} (hknown : Known srv.id (identity srv) db)
    (h : Bolt.ServersStore.txUpdate db.servers srv = .ok b) : SameServers db { db with servers := b } := by
  rcases hold : db.servers.get srv.id with _ | old
  · rw [Bolt.ServersStore.txUpdate_of_none hold] at h
    cases h
  · have hput : ∃ b₀ : Bucket Server, b₀.Issued ∧ b₀.seq = db.servers.seq ∧ b = b₀.put srv := by
      unfold Bolt.ServersStore.txUpdate at h
      rw [hold] at h
      refine ⟨_, ?_, ?_, (Except.ok.inj h).symm⟩
      · split
        · exact Bucket.Issued.sweep (fun _ => rfl) hknown.issued
        · exact hknown.issued
      · split
        · exact Bucket.sweep_seq
        · rfl
    obtain ⟨b₀, hissued, hseq, hb⟩ := hput
    refine ⟨fun hdb => ?_, ?_, fun id srv' hsrv' => ?_⟩
    · show b.Issued
      rw [hb]
      refine hissued.put fun n hn => ?_
      rw [hseq]
      exact Int.ofNat_le.mp (le_of_eq_of_le hn.symm hknown.given)
    · show db.servers.seq ≤ b.seq
      rw [hb, Bucket.put_seq, hseq]
    · obtain ⟨b', hb', hget⟩ := Bolt.ServersStore.txUpdate_of_some hold
      rw [h] at hb'
      obtain rfl := Except.ok.inj hb'
      have hsrv : b.get id = some srv' := hsrv'
      rw [hget] at hsrv
      split_ifs at hsrv with hid hactive
      · obtain rfl := Option.some.inj hsrv
        exact .inl ⟨old, by rw [hid, hold], hknown.identity old hold⟩
      · obtain ⟨old', hold', rfl⟩ := Option.map_eq_some_iff.mp hsrv
        exact .inl ⟨old', hold', (identity_inactive old').symm⟩
      · exact .inl ⟨srv', hsrv, rfl⟩

/-! ### The stores -/

/-- The program is a step of `SameServers` whatever it finds, and says nothing of its value. -/
abbrev Keeps {ε α : Type} (p : Tx ε Db α) : Prop := ∀ db, Among SameServers (fun _ _ => True) p db

/-- A store of servers: what it shows is known from then on, and what is known it may replace. -/
structure KeepsServers (t : ServersStore Db) : Prop where
  all : ∀ ctx, Keeps (t.all ctx)
  add : ∀ ctx srv, Keeps (t.add ctx srv)
  delete : ∀ ctx srv, Keeps (t.delete ctx srv)
  look : ∀ ctx id, Keeps (t.get ctx id)
  get : ∀ ctx id db, db.servers.Issued →
    Among SameServers (fun srv db' => srv.id = id ∧ Known id (identity srv) db') (t.get ctx id) db
  update : ∀ ctx srv db, Known srv.id (identity srv) db → Among SameServers (fun _ _ => True) (t.update ctx srv) db

theorem bolt_keepsServers : KeepsServers Bolt.serversStore where
  all _ _ := Among.view fun _ _ _ _ => trivial
  add _ srv _ := Among.update (Q := fun _ _ => True) fun db _ _ _ h => by
    obtain ⟨-, rfl⟩ := Prod.mk.inj (Except.ok.inj h)
    exact ⟨sameServers_txAdd db srv, trivial⟩
  delete _ srv _ := Among.update (Q := fun _ _ => True) fun db _ _ _ h => by
    obtain ⟨-, rfl⟩ := Prod.mk.inj (Except.ok.inj h)
    exact ⟨sameServers_delete db srv.id, trivial⟩
  look _ _ _ := Among.view fun _ _ _ _ => trivial
  get ctx id db hdb := Among.view fun db' srv hR h => by
    rcases hget : db'.servers.get id with _ | found
    · rw [hget] at h
      cases h
    · rw [hget] at h
      obtain rfl := Except.ok.inj h
      exact ⟨(Bucket.get_some hget).2, known_of_get (issued_stable _ _ hR hdb) hget⟩
  update ctx srv db hknown := Among.update (Q := fun _ _ => True) fun db' _ _ hR h => by
    obtain ⟨b, hb, h⟩ := Except.bind_ok_iff.mp h
    obtain ⟨-, rfl⟩ := Prod.mk.inj (Except.ok.inj h)
    exact ⟨sameServers_txUpdate (known_stable _ _ _ _ hR hknown) hb, trivial⟩

theorem facade_keepsServers {t : ServersStore Db} (ht : KeepsServers t) (org : String) :
    KeepsServers (Organizations.newServersStore t org) where
  all ctx _ := Among.ofExcept_bind fun _ _ => Among.bind (fun _ _ _ => Among.pure trivial) (ht.all ctx _)
  add ctx _ _ := Among.ofExcept_bind fun _ _ => ht.add ctx _ _
  delete ctx srv _ := Among.ofExcept_bind fun _ _ => Among.bind (fun found db _ => ht.delete ctx found db) (ht.look ctx srv.id _)
  look ctx id _ := Among.ofExcept_bind fun _ _ =>
    Among.bind (fun _ _ _ => Among.ite (fun _ => Among.fail) fun _ => Among.pure trivial) (ht.look ctx id _)
  get ctx id db hdb := Among.ofExcept_bind fun _ _ =>
    Among.bind (fun _ _ h => Among.ite (fun _ => Among.fail) fun _ => Among.pure h) (ht.get ctx id db hdb)
  update ctx srv db hknown := Among.ofExcept_bind fun _ _ =>
    Among.bind (fun _ db' h => ht.update ctx srv db' h.2)
      (Among.frame (known_stable _ _) hknown (ht.look ctx srv.id db))

theorem noop_keepsServers : KeepsServers Noop.serversStore where
  all _ _ := trivial
  add _ _ _ := trivial
  delete _ _ _ := trivial
  look _ _ _ := trivial
  get _ _ _ _ := trivial
  update _ _ _ _ := trivial

theorem servers_keepsServers (ctx : Context) : KeepsServers (Store.servers ctx) :=
  select_induction ctx bolt_keepsServers (facade_keepsServers bolt_keepsServers) noop_keepsServers

/-- A store of sources whose transactions write no server. -/
structure SparesServers (t : SourcesStore Db) : Prop where
  all : ∀ ctx, Throughout SameServers (t.all ctx)
  add : ∀ ctx src, Throughout SameServers (t.add ctx src)
  delete : ∀ ctx src, Throughout SameServers (t.delete ctx src)
  get : ∀ ctx id, Throughout SameServers (t.get ctx id)
  update : ∀ ctx src, Throughout SameServers (t.update ctx src)

theorem bolt_sparesServers : SparesServers Bolt.sourcesStore where
  all _ := .view
  add ctx src := .bind .view fun _ => .update fun _ _ _ h => by
    obtain ⟨-, rfl⟩ := Prod.mk.inj (Except.ok.inj h)
    exact .of_servers_eq rfl
  delete ctx src := .update fun _ _ _ h => by
    obtain ⟨b, -, h⟩ := Except.bind_ok_iff.mp h
    obtain ⟨-, rfl⟩ := Prod.mk.inj (Except.ok.inj h)
    exact .of_servers_eq rfl
  get _ _ := .view
  update ctx src := .update fun _ _ _ h => by
    obtain ⟨b, -, h⟩ := Except.bind_ok_iff.mp h
    obtain ⟨-, rfl⟩ := Prod.mk.inj (Except.ok.inj h)
    exact .of_servers_eq rfl

theorem facade_sparesServers {t : SourcesStore Db} (ht : SparesServers t) (org : String) :
    SparesServers (Organizations.newSourcesStore t org) where
  all ctx := .bind .ofExcept fun _ => .bind (ht.all ctx) fun _ => .pure
  add ctx _ := .bind .ofExcept fun _ => ht.add ctx _
  delete ctx _ := .bind .ofExcept fun _ => .bind (ht.get ctx _) fun _ => ht.delete ctx _
  get ctx id := .bind .ofExcept fun _ => .bind (ht.get ctx id) fun _ => .ite .fail .pure
  update ctx _ := .bind .ofExcept fun _ => .bind (ht.get ctx _) fun _ => ht.update ctx _

theorem sources_sparesServers (ctx : Context) : SparesServers (Store.sources ctx) :=
  select_induction ctx bolt_sparesServers (facade_sparesServers bolt_sparesServers) ⟨fun _ => .fail, fun _ _ => .fail, fun _ _ => .fail, fun _ _ => .fail, fun _ _ => .fail⟩

theorem organizations_default_throughout (ids : ℕ → String) (ctx : Context) :
    Throughout SameServers ((Store.organizations ids ctx).defaultOrganization ctx) :=
  organizations_induction (C := fun s : OrganizationsStore Db => Throughout SameServers (s.defaultOrganization ctx))
    ids ctx .view (fun _ => .bind .ofExcept fun _ => .view) .fail

/-! ### The handlers -/

section Handlers

variable {s : Service} {out : Outside} {ctx : Context} {kind : ServerKind} {param kid : String} {db : Db}

theorem sourceInPath_keeps : Keeps (sourceInPath ctx param) := fun _ =>
  .ofExcept_bind fun id _ => .bind (fun _ _ _ => .pure trivial) (.mapError (.of_throughout ((sources_sparesServers ctx).get ctx id)))

theorem defaultOrganization_keeps {f : Error → Response} :
    Keeps (((Store.organizations s.ids ctx).defaultOrganization ctx).mapError f) := fun _ =>
  .mapError (.of_throughout (organizations_default_throughout s.ids ctx))

theorem serverInPath_keeps : Keeps (serverInPath kind ctx param kid) := fun db =>
  .ofExcept_bind fun id _ => .ofExcept_bind fun _ _ =>
    .bind (fun _ _ _ => .ite (fun _ => .fail) fun _ => .pure trivial) (.mapError ((servers_keepsServers ctx).look ctx id db))

/-- The server in the path is of the kind, and known from then on. -/
theorem serverInPath_among (kind : ServerKind) (hdb : db.servers.Issued) : Among SameServers
    (fun found db' => kind.holds found.2 = true ∧ Known found.2.id (identity found.2) db') (serverInPath kind ctx param kid) db := by
  refine .ofExcept_bind fun id _ => .ofExcept_bind fun srcID _ => .bind (fun srv db' h => ?_)
    (.mapError ((servers_keepsServers ctx).get ctx id db hdb))
  refine .ite (fun _ => .fail) fun hkind => .pure ?_
  rw [not_or, not_not, not_not] at hkind
  exact ⟨hkind.2, by rw [h.1]; exact h.2⟩

theorem serversOf_keeps : Keeps (serversOf kind param ctx) := fun db =>
  .ofExcept_bind fun _ _ => .bind (fun _ _ _ => .pure trivial) (.mapError ((servers_keepsServers ctx).all ctx db))

theorem serverID_keeps : Keeps (serverID kind param kid ctx) := fun db =>
  .bind (fun _ _ _ => .pure trivial) (serverInPath_keeps db)

theorem removeServer_keeps : Keeps (removeServer kind param kid ctx) := fun db =>
  .bind (fun found db' _ => .bind (fun _ _ _ => .pure trivial) (.mapError ((servers_keepsServers ctx).delete ctx found.2 db')))
    (serverInPath_keeps db)

theorem storeServer_keeps (srv : Server) (self : Server → String) : Keeps (storeServer kind out ctx srv self) := fun db =>
  .bind (fun _ _ _ => .pure trivial) (.mapError ((servers_keepsServers ctx).add ctx srv db))

theorem replaceServer_among {id : ℤ} {srv : Server} (h : Known srv.id (identity srv) db) :
    Among SameServers (fun _ _ => True) (replaceServer kind ctx id srv) db :=
  .bind (fun _ _ _ => .pure trivial) (.mapError ((servers_keepsServers ctx).update ctx srv db h))

theorem removeSrcsKapa_keeps (srcID : ℤ) : Keeps (removeSrcsKapa ctx srcID) := fun db =>
  .bind (fun _ db' _ => .forEach (fun _ db => (servers_keepsServers ctx).delete ctx _ db) _ db') ((servers_keepsServers ctx).all ctx db)

/-- A service stays a service: a request with a blank type is refused. -/
theorem identity_patchService {req : PatchServiceRequest} {srv : Server} (hvalid : req.valid out = .ok ())
    (hsrv : serviceKind.holds srv = true) : identity (req.patch srv) = identity srv := by
  have htype : req.type ≠ some "" := by
    intro h
    unfold PatchServiceRequest.valid at hvalid
    obtain ⟨_, -, hvalid⟩ := Except.bind_ok_iff.mp hvalid
    rw [if_pos h] at hvalid
    cases hvalid
  have hold : srv.type ≠ "" := of_decide_eq_true hsrv
  have hnew : req.type.getD srv.type ≠ "" := by
    rcases hreq : req.type with _ | type
    · exact hold
    · exact fun h => htype (by rw [hreq]; exact congrArg some h)
  show (srv.srcID, srv.organization, decide (req.type.getD srv.type = "")) = (srv.srcID, srv.organization, decide (srv.type = ""))
  rw [decide_eq_false hold, decide_eq_false hnew]

theorem newSource_keeps (body : Option Source) : Keeps (newSource s out body ctx) := fun db =>
  .ofExcept_bind fun _ _ => .bind (fun _ _ _ => .ofExcept_bind fun _ _ => .ofExcept_bind fun _ _ =>
    .bind (fun _ _ _ => .pure trivial) (.mapError (.of_throughout ((sources_sparesServers ctx).add ctx _)))) (defaultOrganization_keeps db)

theorem updateSource_keeps (body : Option Source) : Keeps (updateSource s out body param ctx) := fun db =>
  .bind (fun _ db _ => .ofExcept_bind fun _ _ => .bind (fun _ _ _ => .ofExcept_bind fun _ _ => .ofExcept_bind fun _ _ =>
    .bind (fun _ _ _ => .pure trivial) (.mapError (.of_throughout ((sources_sparesServers ctx).update ctx _))))
      (defaultOrganization_keeps db)) (sourceInPath_keeps db)

theorem removeSource_keeps : Keeps (removeSource param ctx) := fun _ =>
  .ofExcept_bind fun id _ => .bind (fun _ db _ => .bind (fun _ _ _ => .pure trivial) (.mapError (removeSrcsKapa_keeps id db)))
    (.mapError (.of_throughout ((sources_sparesServers ctx).delete ctx _)))

theorem newKapacitor_keeps (body : Option PostKapacitorRequest) : Keeps (newKapacitor s out body param ctx) := fun db =>
  .bind (fun _ db _ => .ofExcept_bind fun _ _ => .bind (fun _ db _ => .ofExcept_bind fun _ _ => storeServer_keeps _ _ db)
    (defaultOrganization_keeps db)) (sourceInPath_keeps db)

theorem newService_keeps (body : Option PostServiceRequest) : Keeps (newService s out body param ctx) := fun db =>
  .bind (fun _ db _ => .ofExcept_bind fun _ _ => .bind (fun _ db _ => .ofExcept_bind fun _ _ => .ofExcept_bind fun _ _ =>
    storeServer_keeps _ _ db) (defaultOrganization_keeps db)) (sourceInPath_keeps db)

theorem updateKapacitor_among (body : Option PatchKapacitorRequest) (hdb : db.servers.Issued) :
    Among SameServers (fun _ _ => True) (updateKapacitor out body param kid ctx) db :=
  .bind (fun _ _ h => .ofExcept_bind fun _ _ => .ofExcept_bind fun _ _ => replaceServer_among h.2) (serverInPath_among kapacitorKind hdb)

theorem updateService_among (body : Option PatchServiceRequest) (hdb : db.servers.Issued) :
    Among SameServers (fun _ _ => True) (updateService out body param kid ctx) db := by
  refine .bind (fun found db' h => .ofExcept_bind fun req _ => .ofExcept_bind fun _ hvalid => .ofExcept_bind fun _ _ => ?_)
    (serverInPath_among serviceKind hdb)
  refine replaceServer_among ?_
  rw [identity_patchService (Tx.mapError_eq_ok.mp hvalid) h.1]
  exact h.2

/-- What one request does, whoever works at the store with it. -/
theorem connectionCall_among (call : ConnectionCall) (hdb : db.servers.Issued) :
    Among SameServers (fun _ _ => True) (call.handler s out ctx) db := by
  cases call with
  | newSource body => exact newSource_keeps body db
  | sources => exact .bind (fun _ _ _ => .pure trivial) (.mapError (.of_throughout ((sources_sparesServers ctx).all ctx)))
  | sourcesID param => exact .bind (fun _ _ _ => .pure trivial) (sourceInPath_keeps db)
  | removeSource param => exact removeSource_keeps db
  | sourceHealth param => exact .bind (fun _ _ _ => .ite (fun _ => .pure trivial) fun _ => .fail) (sourceInPath_keeps db)
  | updateSource body param => exact updateSource_keeps body db
  | newKapacitor body param => exact newKapacitor_keeps body db
  | kapacitors param => exact serversOf_keeps db
  | kapacitorsID param kid => exact serverID_keeps db
  | removeKapacitor param kid => exact removeServer_keeps db
  | updateKapacitor body param kid => exact updateKapacitor_among body hdb
  | newService body param => exact newService_keeps body db
  | services param => exact serversOf_keeps db
  | serviceID param kid => exact serverID_keeps db
  | removeService param kid => exact removeServer_keeps db
  | updateService body param kid => exact updateService_among body hdb

end Handlers

/-- However the transactions of any requests are interleaved, a server is new or what
was stored under its ID before the requests. -/
theorem servers_keep_identity {ι : Type} [DecidableEq ι] (s : Service) (requests : ι → ConnectionMessage) (db : Db)
    (hdb : db.servers.Issued) (sched : List ι) :
    SameServers db ((Tx.Config.mk (fun i => (requests i).program s) db).run sched).store :=
  Tx.Config.run_among sched fun i => connectionCall_among (requests i).call hdb

theorem servers_keep_identity_example : (exampleServersDb "secret").servers.Issued ∧
    SameServers (exampleServersDb "secret")
      ((Tx.Config.mk (fun i => (exampleMessages "hidden" i).program plainService)
        (exampleServersDb "secret")).run [true, false, true, true]).store :=
  ⟨Bucket.Issued.empty.put_next rfl,
    servers_keep_identity _ (exampleMessages "hidden") _ (Bucket.Issued.empty.put_next rfl) [true, false, true, true]⟩

end Server
end Chronograf
