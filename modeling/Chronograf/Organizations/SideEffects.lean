/-
# What a facade's writes do to other organizations

The facades stamp the organization and hand the call on; the bolt stores then
keep one default source and one active server in the whole bucket. A call of
one organization's facade therefore keeps the other organizations' sources and
servers in every field but these two flags, and `defaultAfter` and
`activeAfter` say what becomes of the flags.

Key definitions: `ResourceWrite`, `defaultAfter`, `activeAfter`, `ForeignKept`.
Key theorem: `foreign_kept_but_flags`.
-/
import Chronograf.Organizations.Isolation

namespace Chronograf
namespace Organizations

open Bolt

/-- A call of a facade that writes. -/
inductive ResourceWrite (ρ : Type)
  | add (d : ρ)
  | update (d : ρ)
  | delete (d : ρ)

namespace ResourceWrite

variable {σ ρ ι : Type}

/-- The call, its result dropped. -/
def call (s : ResourcesStore σ ρ ι) (ctx : Context) : ResourceWrite ρ → Tx Error σ Unit
  | .add d => do let _ ← s.add ctx d; pure ()
  | .update d => s.update ctx d
  | .delete d => s.delete ctx d

variable [Resource ρ ι]

/-- What the call updates or deletes belongs to `org`. -/
def Own (find : σ → ι → Option ρ) (org : String) (db : σ) : ResourceWrite ρ → Prop
  | .add _ => True
  | .update d => ∀ r, find db (Resource.id d) = some r → Resource.organization r = org
  | .delete d => ∀ r, find db (Resource.id d) = some r → Resource.organization r = org

end ResourceWrite

/-- The sources and servers of other organizations are where and what they were. -/
def ForeignUnchanged (org : String) (db db' : Db) : Prop :=
  (∀ id s, db.sources.get id = some s → s.organization ≠ org → db'.sources.get id = some s) ∧
  (∀ id s, db.servers.get id = some s → s.organization ≠ org → db'.servers.get id = some s)

/-- They are where they were, and what they were but for the two flags, which
have become `default` and `active`. -/
structure ForeignKept (org : String) (default : Source → Bool) (active : Server → Bool) (db db' : Db) : Prop where
  sources : ∀ id s, db.sources.get id = some s → s.organization ≠ org →
    db'.sources.get id = some { s with default := default s }
  servers : ∀ id s, db.servers.get id = some s → s.organization ≠ org →
    db'.servers.get id = some { s with active := active s }

theorem ForeignKept.refl (org : String) (db : Db) : ForeignKept org Source.default Server.active db db :=
  ⟨fun _ _ h _ => h, fun _ _ h _ => h⟩

/-- The Default flag of another source `s` after a call: adding or updating a
default source takes it, and deleting the default one gives it to the successor
only. -/
def defaultAfter (db : Db) : ResourceWrite Source → Source → Bool
  | .add d, s => s.default && !d.default
  | .update d, s =>
    match db.sources.get d.id with
    | some _ => s.default && !d.default
    | none => s.default
  | .delete d, s =>
    match db.sources.get d.id with
    | some target => if target.default then SourcesStore.successor db.sources d.id = some s else s.default
    | none => s.default

/-- The Active flag of another server `s` after a call: adding one takes it, and
so does updating one to be active. -/
def activeAfter (db : Db) : ResourceWrite Server → Server → Bool
  | .add _, _ => false
  | .update d, s =>
    match db.servers.get d.id with
    | some _ => s.active && !d.active
    | none => s.active
  | .delete _, s => s.active

section Effects

variable {org : String} (ctx : Context) {db : Db}

theorem displaced_some (d s : Source) :
    SourcesStore.displaced d (some s) = some { s with default := s.default && !d.default } := by
  unfold SourcesStore.displaced SourcesStore.cleared
  cases hd : d.default <;> simp

/-- A source that is stored keeps its place when another one is added. -/
theorem get_add_source (hdb : db.sources.Issued) (d : Source) {id : ℤ} {s : Source}
    (hs : db.sources.get id = some s) :
    ((SourcesStore.add ctx d).run db).2.sources.get id = some { s with default := s.default && !d.default } := by
  have hne : db.sources.recs.length ≠ 0 := by
    intro h
    have hmem := (Bucket.get_some hs).1
    rw [List.length_eq_zero_iff.mp h] at hmem
    exact absurd hmem (by simp)
  have hrun : (SourcesStore.add ctx d).run db =
      (.ok (SourcesStore.txAdd db.sources d).1, { db with sources := (SourcesStore.txAdd db.sources d).2 }) := by
    unfold SourcesStore.add
    rw [Tx.run_bind]
    simp only [SourcesStore.all, Db.run_view, hne, if_false]
    exact Tx.run_update_ok rfl
  rw [hrun]
  show (SourcesStore.txAdd db.sources d).2.get id = _
  rw [SourcesStore.get_txAdd, if_neg (hdb.ne_next hs), hs, displaced_some]

theorem servers_add_source (d : Source) : ((SourcesStore.add ctx d).run db).2.servers = db.servers := by
  unfold SourcesStore.add
  rw [Tx.run_bind]
  rfl

theorem source_add_kept (hdb : db.sources.Issued) (d : Source) :
    ForeignKept org (defaultAfter db (.add d)) Server.active db ((SourcesStore.add ctx d).run db).2 where
  sources _ _ hs _ := get_add_source ctx hdb d hs
  servers _ _ hs _ := by rw [servers_add_source]; exact hs

theorem source_update_kept {d r : Source} (hr : db.sources.get d.id = some r) (hown : r.organization = org) :
    ForeignKept org (defaultAfter db (.update d)) Server.active db ((SourcesStore.update ctx d).run db).2 := by
  obtain ⟨b', hb', hget⟩ := SourcesStore.txUpdate_of_some hr
  have hrun : (SourcesStore.update ctx d).run db = (.ok (), { db with sources := b' }) :=
    Tx.run_update_ok (by rw [hb']; rfl)
  rw [hrun]
  refine ⟨fun id s hs hne => ?_, fun _ _ hs _ => hs⟩
  have hid : id ≠ d.id := by
    rintro rfl
    rw [hr, Option.some.injEq] at hs
    exact hne (hs ▸ hown)
  show b'.get id = _
  rw [hget, if_neg hid, hs, displaced_some]
  simp only [defaultAfter, hr]

theorem source_delete_kept {d r : Source} (hr : db.sources.get d.id = some r) (hown : r.organization = org) :
    ForeignKept org (defaultAfter db (.delete d)) Server.active db ((SourcesStore.delete ctx d).run db).2 := by
  have hid : ∀ id s, db.sources.get id = some s → s.organization ≠ org → id ≠ d.id := by
    rintro id s hs hne rfl
    rw [hr, Option.some.injEq] at hs
    exact hne (hs ▸ hown)
  cases hd : r.default with
  | false =>
    rw [SourcesStore.run_delete_of_not_default ctx hr hd]
    refine ⟨fun id s hs hne => ?_, fun _ _ hs _ => hs⟩
    show (db.sources.delete d.id).get id = _
    rw [Bucket.get_delete, if_neg (hid id s hs hne), hs]
    simp [defaultAfter, hr, hd]
  | true =>
    obtain ⟨b', hrun, hget⟩ := SourcesStore.run_delete_of_default ctx hr hd
    rw [hrun]
    refine ⟨fun id s hs hne => ?_, fun _ _ hs _ => hs⟩
    show b'.get id = _
    rw [hget, if_neg (hid id s hs hne), hs]
    simp [defaultAfter, hr, hd]

theorem server_add_kept (hdb : db.servers.Issued) (d : Server) :
    ForeignKept org Source.default (activeAfter db (.add d)) db ((ServersStore.add ctx d).run db).2 := by
  refine ⟨fun _ _ hs _ => hs, fun id s hs _ => ?_⟩
  show (ServersStore.txAdd db.servers d).2.get id = _
  rw [ServersStore.get_txAdd, if_neg (hdb.ne_next hs), hs]
  rfl

theorem server_update_kept {d r : Server} (hr : db.servers.get d.id = some r) (hown : r.organization = org) :
    ForeignKept org Source.default (activeAfter db (.update d)) db ((ServersStore.update ctx d).run db).2 := by
  obtain ⟨b', hb', hget⟩ := ServersStore.txUpdate_of_some hr
  have hrun : (ServersStore.update ctx d).run db = (.ok (), { db with servers := b' }) :=
    Tx.run_update_ok (by rw [hb']; rfl)
  rw [hrun]
  refine ⟨fun _ _ hs _ => hs, fun id s hs hne => ?_⟩
  have hid : id ≠ d.id := by
    rintro rfl
    rw [hr, Option.some.injEq] at hs
    exact hne (hs ▸ hown)
  show b'.get id = _
  rw [hget, if_neg hid, hs]
  cases hd : d.active <;> simp [activeAfter, hr, hd, ServersStore.inactive]

theorem server_delete_kept {d r : Server} (hr : db.servers.get d.id = some r) (hown : r.organization = org) :
    ForeignKept org Source.default (activeAfter db (.delete d)) db ((ServersStore.delete ctx d).run db).2 := by
  refine ⟨fun _ _ hs _ => hs, fun id s hs hne => ?_⟩
  have hid : id ≠ d.id := by
    rintro rfl
    rw [hr, Option.some.injEq] at hs
    exact hne (hs ▸ hown)
  show (db.servers.delete d.id).get id = _
  rw [Bucket.get_delete, if_neg hid, hs]
  rfl

end Effects

/-- The sources facade, call by call. -/
theorem sources_facade_kept {org : String} {ctx : Context} {db : Db} (hctx : validOrganization ctx = .ok ())
    (hdb : db.sources.Issued) : ∀ w : ResourceWrite Source, w.Own (fun db : Db => db.sources.get) org db →
    ForeignKept org (defaultAfter db w) Server.active db
      ((w.call (newSourcesStore sourcesStore org) ctx).run db).2
  | .add d, _ => by
    rw [ResourceWrite.call, Tx.run_discard]
    show ForeignKept _ _ _ _ (((newResourcesStore sourcesStore org).add ctx d).run db).2
    rw [run_facade_add hctx]
    exact source_add_kept ctx hdb { d with organization := org }
  | .update d, hown => by
    show ForeignKept _ _ _ _ (((newResourcesStore sourcesStore org).update ctx d).run db).2
    cases hr : db.sources.get d.id with
    | none =>
      rw [run_facade_update_none SourcesStore.owned hctx hr]
      have hflag : defaultAfter db (.update d) = Source.default := by funext s; simp [defaultAfter, hr]
      rw [hflag]
      exact .refl org db
    | some r =>
      rw [run_facade_update org SourcesStore.owned hctx hr]
      exact source_update_kept ctx hr (hown r hr)
  | .delete d, hown => by
    show ForeignKept _ _ _ _ (((newResourcesStore sourcesStore org).delete ctx d).run db).2
    cases hr : db.sources.get d.id with
    | none =>
      rw [run_facade_delete_none SourcesStore.owned hctx hr]
      have hflag : defaultAfter db (.delete d) = Source.default := by funext s; simp [defaultAfter, hr]
      rw [hflag]
      exact .refl org db
    | some r =>
      have hid : r.id = d.id := (Bucket.get_some hr).2
      rw [run_facade_delete SourcesStore.owned hctx hr]
      have hkept := source_delete_kept ctx (hid.symm ▸ hr) (hown r hr)
      have hflag : defaultAfter db (.delete r) = defaultAfter db (.delete d) := by
        funext s; simp only [defaultAfter, hid]
      rwa [hflag] at hkept

/-- The servers facade, call by call. -/
theorem servers_facade_kept {org : String} {ctx : Context} {db : Db} (hctx : validOrganization ctx = .ok ())
    (hdb : db.servers.Issued) : ∀ w : ResourceWrite Server, w.Own (fun db : Db => db.servers.get) org db →
    ForeignKept org Source.default (activeAfter db w) db
      ((w.call (newServersStore serversStore org) ctx).run db).2
  | .add d, _ => by
    rw [ResourceWrite.call, Tx.run_discard]
    show ForeignKept _ _ _ _ (((newResourcesStore serversStore org).add ctx d).run db).2
    rw [run_facade_add hctx]
    exact server_add_kept ctx hdb { d with organization := org }
  | .update d, hown => by
    show ForeignKept _ _ _ _ (((newResourcesStore serversStore org).update ctx d).run db).2
    cases hr : db.servers.get d.id with
    | none =>
      rw [run_facade_update_none ServersStore.owned hctx hr]
      have hflag : activeAfter db (.update d) = Server.active := by funext s; simp [activeAfter, hr]
      rw [hflag]
      exact .refl org db
    | some r =>
      rw [run_facade_update org ServersStore.owned hctx hr]
      exact server_update_kept ctx hr (hown r hr)
  | .delete d, hown => by
    show ForeignKept _ _ _ _ (((newResourcesStore serversStore org).delete ctx d).run db).2
    cases hr : db.servers.get d.id with
    | none =>
      rw [run_facade_delete_none ServersStore.owned hctx hr]
      exact .refl org db
    | some r =>
      have hid : r.id = d.id := (Bucket.get_some hr).2
      rw [run_facade_delete ServersStore.owned hctx hr]
      exact server_delete_kept ctx (hid.symm ▸ hr) (hown r hr)

/-- A write through the sources or servers facade of `org` that updates or
deletes records of `org` only keeps the other organizations' sources and
servers in every field but Default and Active, and these become what
`defaultAfter` and `activeAfter` say. -/
theorem foreign_kept_but_flags (org : String) (ctx : Context) (db : Db) (hctx : validOrganization ctx = .ok ())
    (hdb : db.Issued) :
    (∀ w : ResourceWrite Source, w.Own (fun db : Db => db.sources.get) org db →
      ForeignKept org (defaultAfter db w) Server.active db
        ((w.call (newSourcesStore sourcesStore org) ctx).run db).2) ∧
    (∀ w : ResourceWrite Server, w.Own (fun db : Db => db.servers.get) org db →
      ForeignKept org Source.default (activeAfter db w) db
        ((w.call (newServersStore serversStore org) ctx).run db).2) :=
  ⟨sources_facade_kept hctx hdb.sources, servers_facade_kept hctx hdb.servers⟩

/-- The default source that the facade of organization 1 is given to add. -/
def exampleNewSource : Source :=
  ⟨0, "influx 1", "influx", "", "", "", "http://localhost:8087", "", false, true, "telegraf", "", "", ""⟩

theorem foreign_kept_but_flags_example :
    exampleDb.Issued ∧ ForeignKept "1" (defaultAfter exampleDb (.add exampleNewSource)) Server.active exampleDb
      (((ResourceWrite.add exampleNewSource).call (newSourcesStore sourcesStore "1")
        { organization := some "1" }).run exampleDb).2 := by
  have hdb : exampleDb.Issued := ⟨.empty, .empty, Bucket.Issued.empty.put_next rfl, .empty, .empty⟩
  exact ⟨hdb, (foreign_kept_but_flags "1" { organization := some "1" } exampleDb rfl hdb).1
    (.add exampleNewSource) trivial⟩

/-- Organization 1 adds a default source, and the one of organization 2 is the
default no more. -/
theorem foreign_default_cleared :
    ¬ ForeignUnchanged "1" exampleDb
      (((ResourceWrite.add exampleNewSource).call (newSourcesStore sourcesStore "1")
        { organization := some "1" }).run exampleDb).2 := by
  rintro ⟨h, -⟩
  have hne : exampleSource.organization ≠ "1" := by decide
  have hkept := h 1 exampleSource rfl hne
  have hcleared : (some { exampleSource with default := false } : Option Source) = some exampleSource := hkept
  exact absurd hcleared (by decide)

end Organizations
end Chronograf
