/-
# Whose records the facades reach

A resources store keeps records that each belong to an organization. Its
abstract content is who owns which ID; `Owned` says that a store shows, adds,
deletes and moves records accordingly, and the bolt stores do. Over any such
store the facade of an organization shows its own records only. It looks a
record up by its ID alone before it deletes or replaces it, so `Delete` and
`Update` reach every organization's records.

Key definitions: `Owned`, `ResourceCall`, `TreatsAsAbsent`.
Key theorems: `treatsAsAbsent_iff`, `foreign_records_absent`.
-/
import Chronograf.Bolt.Dashboards
import Chronograf.Bolt.Servers
import Chronograf.Bolt.Sources
import Chronograf.Organizations.Resources

namespace Chronograf

section Owned

variable {σ ρ ι : Type} [Resource ρ ι] [DecidableEq ι]

/-- The store `s` keeps the records that `find` finds: it lists and shows them,
and what it deletes or replaces changes hands in no other place. -/
structure Owned (s : ResourcesStore σ ρ ι) (find : σ → ι → Option ρ) : Prop where
  id_of_find : ∀ {db id d}, find db id = some d → Resource.id d = id
  run_get : ∀ ctx id db, (s.get ctx id).run db =
    (match find db id with
      | some d => .ok d
      | none => .error (Resource.errNotFound ρ), db)
  run_all : ∀ ctx db, ∃ ds, (s.all ctx).run db = (.ok ds, db) ∧
    ∀ d, d ∈ ds ↔ find db (Resource.id d) = some d
  run_delete : ∀ ctx d db, find db (Resource.id d) ≠ none →
    ∃ db', (s.delete ctx d).run db = (.ok (), db') ∧ ∀ id, (find db' id).map Resource.organization =
      if id = Resource.id d then none else (find db id).map Resource.organization
  run_update : ∀ ctx d db, find db (Resource.id d) ≠ none →
    ∃ db', (s.update ctx d).run db = (.ok (), db') ∧ ∀ id, (find db' id).map Resource.organization =
      if id = Resource.id d then some (Resource.organization d)
      else (find db id).map Resource.organization

end Owned

namespace Bolt

namespace SourcesStore

theorem map_organization_displaced (src : Source) (o : Option Source) :
    (displaced src o).map Resource.organization = o.map Resource.organization := by
  unfold displaced
  split
  · rw [Option.map_map]; rfl
  · rfl

theorem owned : Owned sourcesStore fun db => db.sources.get where
  id_of_find h := (Bucket.get_some h).2
  run_get ctx id db := by
    show (SourcesStore.get ctx id).run db = _
    rw [SourcesStore.get, Db.run_view]
    cases db.sources.get id <;> rfl
  run_all ctx db := ⟨db.sources.recs, rfl, fun d => Bucket.mem_iff_get⟩
  run_delete ctx d db h := by
    obtain ⟨target, htarget⟩ := Option.ne_none_iff_exists'.mp h
    cases hd : target.default with
    | false =>
      refine ⟨_, run_delete_of_not_default ctx htarget hd, fun id => ?_⟩
      rw [Bucket.get_delete]
      by_cases hid : id = d.id <;> simp [hid]
    | true =>
      obtain ⟨b', hrun, hget⟩ := run_delete_of_default ctx htarget hd
      refine ⟨_, hrun, fun id => ?_⟩
      rw [hget]
      by_cases hid : id = d.id
      · simp [hid]
      · simp only [hid, if_false, id_source, Option.map_map]
        rfl
  run_update ctx d db h := by
    obtain ⟨target, htarget⟩ := Option.ne_none_iff_exists'.mp h
    obtain ⟨b', hb', hget⟩ := txUpdate_of_some htarget
    refine ⟨{ db with sources := b' }, Tx.run_update_ok (by rw [hb']; rfl), fun id => ?_⟩
    rw [hget]
    by_cases hid : id = d.id
    · simp [hid]
    · simp only [hid, if_false, id_source]
      exact map_organization_displaced _ _

end SourcesStore

namespace ServersStore

theorem map_organization_inactive (o : Option Server) :
    (o.map inactive).map Resource.organization = o.map Resource.organization := by
  rw [Option.map_map]; rfl

theorem owned : Owned serversStore fun db => db.servers.get where
  id_of_find h := (Bucket.get_some h).2
  run_get ctx id db := by
    show (ServersStore.get ctx id).run db = _
    rw [ServersStore.get, Db.run_view]
    cases db.servers.get id <;> rfl
  run_all ctx db := ⟨db.servers.recs, rfl, fun d => Bucket.mem_iff_get⟩
  run_delete ctx d db h := by
    refine ⟨{ db with servers := db.servers.delete d.id }, rfl, fun id => ?_⟩
    rw [Bucket.get_delete]
    by_cases hid : id = d.id <;> simp [hid]
  run_update ctx d db h := by
    obtain ⟨target, htarget⟩ := Option.ne_none_iff_exists'.mp h
    obtain ⟨b', hb', hget⟩ := txUpdate_of_some htarget
    refine ⟨{ db with servers := b' }, Tx.run_update_ok (by rw [hb']; rfl), fun id => ?_⟩
    rw [hget]
    by_cases hid : id = d.id
    · simp [hid]
    · simp only [hid, if_false, id_server]
      split
      · exact map_organization_inactive _
      · rfl

end ServersStore

namespace DashboardsStore

open Internal (unmarshalDashboard)

/-- The dashboard stored under `id`, decoded. -/
def stored (db : Db) (id : ℤ) : Option Dashboard := (db.dashboards.get (Int.repr id)).map unmarshalDashboard

theorem id_of_stored {db : Db} {id : ℤ} {d : Dashboard} (h : stored db id = some d) : d.id = id := by
  obtain ⟨v, hv, rfl⟩ := Option.map_eq_some_iff.mp h
  exact intRepr_injective (Bucket.get_some hv).2

theorem not_blank_key (d : Internal.Dashboard) : ¬ blank (key d) := by
  intro h
  have hrepr : Int.repr d.id = "" := of_decide_eq_true h
  have hlen : (Int.repr d.id).toList = [] := by rw [hrepr]; rfl
  cases hid : d.id with
  | ofNat n =>
    rw [hid] at hlen
    have hdigits : (Nat.repr n).toList = [] := hlen
    rw [Nat.toList_repr] at hdigits
    exact Nat.toDigits_ne_nil hdigits
  | negSucc n =>
    rw [hid] at hlen
    have hminus : ("-" ++ Nat.repr (n + 1)).toList = [] := hlen
    simp [String.toList_append] at hminus

theorem stored_put (db : Db) (b : Bucket Internal.Dashboard) (v : Internal.Dashboard) (id : ℤ) :
    stored { db with dashboards := b.put v } id =
      if id = v.id then some (unmarshalDashboard v) else stored { db with dashboards := b } id := by
  unfold stored
  rw [Bucket.get_put (not_blank_key v), key_dashboard]
  by_cases hid : id = v.id
  · rw [hid, if_pos rfl, if_pos rfl, Option.map_some]
  · rw [if_neg hid, if_neg (intRepr_injective.ne hid)]

theorem stored_delete (db : Db) (k id : ℤ) :
    stored { db with dashboards := db.dashboards.delete (Int.repr k) } id = if id = k then none else stored db id := by
  unfold stored
  rw [Bucket.get_delete]
  by_cases hid : id = k
  · rw [hid, if_pos rfl, if_pos rfl, Option.map_none]
  · rw [if_neg hid, if_neg (intRepr_injective.ne hid)]

theorem owned (ids : ℕ → String) : Owned (dashboardsStore ids) stored where
  id_of_find h := id_of_stored h
  run_get ctx id db := by
    show (DashboardsStore.get ctx id).run db = _
    rw [DashboardsStore.get, Db.run_view, stored]
    cases db.dashboards.get (Int.repr id) <;> rfl
  run_all ctx db := by
    refine ⟨db.dashboards.recs.map unmarshalDashboard, rfl, fun d => ?_⟩
    rw [List.mem_map]
    constructor
    · rintro ⟨v, hv, rfl⟩
      exact Option.map_eq_some_iff.mpr ⟨v, Bucket.get_of_mem hv, rfl⟩
    · intro h
      obtain ⟨v, hv, hd⟩ := Option.map_eq_some_iff.mp h
      exact ⟨v, (Bucket.get_some hv).1, hd⟩
  run_delete ctx d db h := by
    refine ⟨{ db with dashboards := db.dashboards.delete (Int.repr d.id) }, rfl, fun id => ?_⟩
    rw [stored_delete, id_dashboard]
    by_cases hid : id = d.id
    · rw [if_pos hid, if_pos hid]
      rfl
    · rw [if_neg hid, if_neg hid]
  run_update ctx d db h := by
    obtain ⟨target, htarget⟩ := Option.ne_none_iff_exists'.mp h
    obtain ⟨v, hv, -⟩ := Option.map_eq_some_iff.mp htarget
    rw [id_dashboard] at hv
    refine ⟨_, Tx.run_update_ok (by rw [hv]), fun id => ?_⟩
    rw [stored_put, id_dashboard, Internal.marshalDashboard_id, withCellIDs_id]
    by_cases hid : id = d.id
    · rw [if_pos hid, if_pos hid]
      rfl
    · rw [if_neg hid, if_neg hid]

end DashboardsStore
end Bolt

namespace Organizations

/-! ### The facade over a store of owned records -/

section Facade

variable {σ ρ ι : Type} [Resource ρ ι] [DecidableEq ι] {s : ResourcesStore σ ρ ι}
  {find : σ → ι → Option ρ} {org : String} {ctx : Context} {db : σ}

theorem run_facade_all (org : String) (db : σ) (hs : Owned s find) (hctx : validOrganization ctx = .ok ()) :
    ∃ ds, ((newResourcesStore s org).all ctx).run db = (.ok ds, db) ∧
      ∀ d, d ∈ ds ↔ find db (Resource.id d) = some d ∧ Resource.organization d = org := by
  obtain ⟨ds, hrun, hmem⟩ := hs.run_all ctx db
  refine ⟨ds.filter fun d => Resource.organization d = org, ?_, fun d => ?_⟩
  · simp [newResourcesStore, hctx, Tx.run_bind, hrun]
  · rw [List.mem_filter, hmem, decide_eq_true_eq]

omit [DecidableEq ι] in
theorem run_facade_all_filter (hctx : validOrganization ctx = .ok ()) {ds : List ρ}
    (hall : (s.all ctx).run db = (.ok ds, db)) :
    ((newResourcesStore s org).all ctx).run db = (.ok (ds.filter fun d => Resource.organization d = org), db) := by
  simp [newResourcesStore, hctx, Tx.run_bind, hall]

theorem run_facade_get_own (hs : Owned s find) (hctx : validOrganization ctx = .ok ()) {id : ι} {r : ρ}
    (hr : find db id = some r) (horg : Resource.organization r = org) :
    ((newResourcesStore s org).get ctx id).run db = (.ok r, db) := by
  simp [newResourcesStore, hctx, Tx.run_bind, hs.run_get, hr, horg]

theorem run_facade_get_none (hs : Owned s find) (hctx : validOrganization ctx = .ok ()) {id : ι}
    (hr : find db id = none) :
    ((newResourcesStore s org).get ctx id).run db = (.error (Resource.errNotFound ρ), db) := by
  simp [newResourcesStore, hctx, Tx.run_bind, hs.run_get, hr]

theorem run_facade_get_foreign (hs : Owned s find) (hctx : validOrganization ctx = .ok ()) {id : ι} {r : ρ}
    (hr : find db id = some r) (hne : Resource.organization r ≠ org) :
    ((newResourcesStore s org).get ctx id).run db = (.error (Resource.errNotFound ρ), db) := by
  simp [newResourcesStore, hctx, Tx.run_bind, hs.run_get, hr, hne]

/-- Whoever owns the record, the facade hands it to the store to delete. -/
theorem run_facade_delete (hs : Owned s find) (hctx : validOrganization ctx = .ok ()) {d r : ρ}
    (hr : find db (Resource.id d) = some r) :
    ((newResourcesStore s org).delete ctx d).run db = (s.delete ctx r).run db := by
  simp [newResourcesStore, hctx, Tx.run_bind, hs.run_get, hr]

/-- Whoever owns the record, the facade hands the new one to the store. -/
theorem run_facade_update (org : String) (hs : Owned s find) (hctx : validOrganization ctx = .ok ()) {d r : ρ}
    (hr : find db (Resource.id d) = some r) :
    ((newResourcesStore s org).update ctx d).run db = (s.update ctx d).run db := by
  simp [newResourcesStore, hctx, Tx.run_bind, hs.run_get, hr]

theorem run_facade_update_none (hs : Owned s find) (hctx : validOrganization ctx = .ok ()) {d : ρ}
    (hr : find db (Resource.id d) = none) :
    ((newResourcesStore s org).update ctx d).run db = (.error (Resource.errNotFound ρ), db) := by
  simp [newResourcesStore, hctx, Tx.run_bind, hs.run_get, hr]

theorem run_facade_delete_none (hs : Owned s find) (hctx : validOrganization ctx = .ok ()) {d : ρ}
    (hr : find db (Resource.id d) = none) :
    ((newResourcesStore s org).delete ctx d).run db = (.error (Resource.errNotFound ρ), db) := by
  simp [newResourcesStore, hctx, Tx.run_bind, hs.run_get, hr]

omit [DecidableEq ι] in
theorem run_facade_add (hctx : validOrganization ctx = .ok ()) (d : ρ) :
    ((newResourcesStore s org).add ctx d).run db = (s.add ctx (Resource.setOrganization d org)).run db := by
  simp [newResourcesStore, hctx, Tx.run_bind]

end Facade

/-! ### Isolation -/

/-- A call of a facade that names a record, or lists them. -/
inductive ResourceCall (ρ ι : Type)
  | all
  | get (id : ι)
  | delete (d : ρ)
  | update (d : ρ)

section Isolation

variable {σ ρ ι : Type} [Resource ρ ι] [DecidableEq ι]

/-- The store `f`, a facade of `org`, treats the records of other
organizations that `find` finds as absent: it does not list them, it answers
calls on their IDs with the not-found error and no effect, and no record it
updates changes hands. -/
def TreatsAsAbsent (f : ResourcesStore σ ρ ι) (find : σ → ι → Option ρ) (org : String) (ctx : Context)
    (db : σ) : ResourceCall ρ ι → Prop
  | .all => ∀ ds, ((f.all ctx).run db).1 = .ok ds → ∀ r ∈ ds, Resource.organization r = org
  | .get id => ∀ r, find db id = some r → Resource.organization r ≠ org →
    (f.get ctx id).run db = (.error (Resource.errNotFound ρ), db)
  | .delete d => ∀ r, find db (Resource.id d) = some r → Resource.organization r ≠ org →
    (f.delete ctx d).run db = (.error (Resource.errNotFound ρ), db)
  | .update d =>
    (∀ r, find db (Resource.id d) = some r → Resource.organization r ≠ org →
      (f.update ctx d).run db = (.error (Resource.errNotFound ρ), db)) ∧
    ∀ db', (f.update ctx d).run db = (.ok (), db') → ∀ r, find db (Resource.id d) = some r →
      ∃ r', find db' (Resource.id d) = some r' ∧ Resource.organization r' = Resource.organization r

/-- Deleting and updating stay with records of `org`, and an update says so. -/
def OwnCall (find : σ → ι → Option ρ) (org : String) (db : σ) : ResourceCall ρ ι → Prop
  | .all => True
  | .get _ => True
  | .delete d => ∀ r, find db (Resource.id d) = some r → Resource.organization r = org
  | .update d => ∀ r, find db (Resource.id d) = some r →
    Resource.organization r = org ∧ Resource.organization d = org

variable {s : ResourcesStore σ ρ ι} {find : σ → ι → Option ρ} {org : String} {ctx : Context} {db : σ}

theorem treatsAsAbsent_delete_iff (hs : Owned s find) (hctx : validOrganization ctx = .ok ()) (d : ρ) :
    TreatsAsAbsent (newResourcesStore s org) find org ctx db (.delete d) ↔
      OwnCall find org db (.delete d) := by
  constructor
  · intro h r hr
    by_contra hne
    have hid : Resource.id r = Resource.id d := hs.id_of_find hr
    obtain ⟨db', hrun, -⟩ := hs.run_delete ctx r db (by rw [hid, hr]; simp)
    have habsent := h r hr hne
    rw [run_facade_delete hs hctx hr, hrun] at habsent
    exact absurd (congrArg Prod.fst habsent) (by simp)
  · exact fun h r hr hne => absurd (h r hr) hne

theorem treatsAsAbsent_update_iff (hs : Owned s find) (hctx : validOrganization ctx = .ok ()) (d : ρ) :
    TreatsAsAbsent (newResourcesStore s org) find org ctx db (.update d) ↔
      OwnCall find org db (.update d) := by
  constructor
  · rintro ⟨habsent, hkeep⟩ r hr
    obtain ⟨db', hrun, hmap⟩ := hs.run_update ctx d db (by rw [hr]; simp)
    rw [← run_facade_update org hs hctx hr] at hrun
    have horg : Resource.organization r = org := by
      by_contra hne
      have habs := habsent r hr hne
      rw [hrun] at habs
      exact absurd (congrArg Prod.fst habs) (by simp)
    refine ⟨horg, ?_⟩
    obtain ⟨r', hr', horg'⟩ := hkeep db' hrun r hr
    have hself := hmap (Resource.id d)
    rw [if_pos rfl, hr', Option.map_some, Option.some.injEq] at hself
    rw [← hself, horg', horg]
  · intro h
    refine ⟨fun r hr hne => absurd (h r hr).1 hne, fun db' hdb' r hr => ?_⟩
    obtain ⟨horg, hd⟩ := h r hr
    obtain ⟨db'', hrun, hmap⟩ := hs.run_update ctx d db (by rw [hr]; simp)
    rw [run_facade_update org hs hctx hr, hrun, Prod.mk.injEq] at hdb'
    obtain ⟨r', hr', horg'⟩ := Option.map_eq_some_iff.mp ((hmap (Resource.id d)).trans (if_pos rfl))
    exact ⟨r', hdb'.2 ▸ hr', by rw [horg', hd, horg]⟩

/-- The facade isolates the organization exactly as far as its calls do. -/
theorem treatsAsAbsent_iff (hs : Owned s find) (hctx : validOrganization ctx = .ok ()) :
    ∀ call, TreatsAsAbsent (newResourcesStore s org) find org ctx db call ↔ OwnCall find org db call
  | .all => by
    obtain ⟨ds, hrun, hmem⟩ := run_facade_all org db hs hctx
    refine ⟨fun _ => trivial, fun _ ds' hds' r hr => ?_⟩
    rw [hrun] at hds'
    obtain rfl := Except.ok.inj hds'
    exact ((hmem r).mp hr).2
  | .get id => ⟨fun _ => trivial, fun _ r hr hne => run_facade_get_foreign hs hctx hr hne⟩
  | .delete d => treatsAsAbsent_delete_iff hs hctx d
  | .update d => treatsAsAbsent_update_iff hs hctx d

end Isolation

open Bolt in
/-- For each of the three kinds of records: a call of the facade of `org`
treats other organizations' records as absent if and only if it is not a
`Delete` of a stored record of another one, nor an `Update` of one or into one. -/
theorem foreign_records_absent (ids : ℕ → String) (org : String) (ctx : Context) (db : Db)
    (hctx : validOrganization ctx = .ok ()) :
    (∀ call, TreatsAsAbsent (newSourcesStore sourcesStore org) (fun db => db.sources.get) org ctx db call ↔
      OwnCall (fun db : Db => db.sources.get) org db call) ∧
    (∀ call, TreatsAsAbsent (newServersStore serversStore org) (fun db => db.servers.get) org ctx db call ↔
      OwnCall (fun db : Db => db.servers.get) org db call) ∧
    (∀ call, TreatsAsAbsent (newDashboardsStore (dashboardsStore ids) org) DashboardsStore.stored org ctx db call ↔
      OwnCall DashboardsStore.stored org db call) :=
  ⟨treatsAsAbsent_iff SourcesStore.owned hctx, treatsAsAbsent_iff ServersStore.owned hctx,
    treatsAsAbsent_iff (DashboardsStore.owned ids) hctx⟩

/-- A source of organization 2. -/
def exampleSource : Source :=
  ⟨1, "influx", "influx", "", "", "", "http://localhost:8086", "", false, true, "telegraf", "2", "", ""⟩

/-- A database with that source only. -/
def exampleDb : Db := { Db.empty with sources := Bucket.empty.nextSequence.put exampleSource }

open Bolt in
theorem foreign_records_absent_example :
    TreatsAsAbsent (newSourcesStore sourcesStore "2") (fun db => db.sources.get) "2"
        { organization := some "2" } exampleDb (.delete exampleSource) ↔
      OwnCall (fun db : Db => db.sources.get) "2" exampleDb (.delete exampleSource) :=
  (foreign_records_absent (fun _ => "") "2" { organization := some "2" } exampleDb rfl).1 (.delete exampleSource)

open Bolt in
/-- The facade of organization 1 deletes a source of organization 2, given a
source of which only the ID is set. -/
theorem foreign_source_deleted :
    ¬ TreatsAsAbsent (newSourcesStore sourcesStore "1") (fun db => db.sources.get) "1"
      { organization := some "1" } exampleDb
      (.delete ⟨1, "", "", "", "", "", "", "", false, false, "", "", "", ""⟩) := by
  intro h
  have hne : exampleSource.organization ≠ "1" := by decide
  have habsent := h exampleSource rfl hne
  have hok : (Except.ok () : Except Error Unit) = .error .errSourceNotFound := congrArg Prod.fst habsent
  exact nomatch hok

end Organizations

end Chronograf
