/-
# What deleting an organization leaves

Deleting an organization removes its sources, servers and dashboards, its
roles and its mappings, each kind in a loop over what the organization's facade
lists. The other organizations keep theirs; only the Default flag, of which the
bucket of sources has one for everybody, moves on when it goes with a source of
the organization.

Key definitions: `NothingOf`, `KeptBeside`, `SourcesStore.heir`,
`SourcesStore.defaultWithout`.
Key theorems: `OrganizationsStore.run_delete`, `delete_complete_and_confined`.
-/
import Chronograf.Bolt.Organizations
import Chronograf.Organizations.Isolation
import Chronograf.Organizations.Lens
import Mathlib.Data.List.Find

namespace Chronograf

open Organizations (newResourcesStore newUsersStore run_facade_delete)

namespace Bolt

/-! ### Loops that delete record after record -/

section Loops

variable {α ρ κ : Type} [LinearOrder κ] [Sequenced κ] [Keyed ρ κ]

/-- A loop whose rounds each delete the record under the key of their element:
`inDb` puts a bucket in its place in the database. -/
theorem run_deleteEach {inDb : Bucket ρ → Db} {f : α → Tx Error Db Unit} {g : α → κ}
    (hf : ∀ a b r, b.get (g a) = some r → (f a).run (inDb b) = (.ok (), inDb (b.delete (g a)))) :
    ∀ (as : List α) (b : Bucket ρ), (as.map g).Nodup → (∀ a ∈ as, ∃ r, b.get (g a) = some r) →
      ∃ b', (Tx.forEach as f).run (inDb b) = (.ok (), inDb b') ∧
        ∀ k, b'.get k = if k ∈ as.map g then none else b.get k
  | [], b, _, _ => ⟨b, rfl, fun k => by simp⟩
  | a :: as, b, hn, hget => by
    rw [List.map_cons, List.nodup_cons] at hn
    obtain ⟨r, hr⟩ := hget a (by simp)
    have hrest : ∀ c ∈ as, ∃ r, (b.delete (g a)).get (g c) = some r := by
      intro c hc
      have hne : g c ≠ g a := fun h => hn.1 (List.mem_map.mpr ⟨c, hc, h⟩)
      rw [Bucket.get_delete, if_neg hne]
      exact hget c (by simp [hc])
    obtain ⟨b', hrun, hb'⟩ := run_deleteEach hf as (b.delete (g a)) hn.2 hrest
    refine ⟨b', (Tx.run_bind_ok (hf a b r hr)).trans hrun, fun k => ?_⟩
    rw [hb', Bucket.get_delete, List.map_cons]
    by_cases hk : k = g a
    · simp [hk]
    · simp [hk]

/-- The records that are left are the ones whose keys were not in the loop. -/
theorem recs_of_deleteEach {b b' : Bucket ρ} {ks : List κ} {p : ρ → Bool} (hks : ∀ r ∈ b.recs, key r ∈ ks ↔ ¬ p r)
    (h : ∀ k, b'.get k = if k ∈ ks then none else b.get k) : b'.recs = b.recs.filter p := by
  have hid : ∀ r : ρ, key (id r) = key r := fun _ => rfl
  have hrecs : b'.recs = (b.recs.filter p).map id := by
    refine (Bucket.recs_eq_iff hid).mpr fun k => ?_
    rw [h]
    cases hk : b.get k with
    | none => simp
    | some r =>
      obtain ⟨hr, rfl⟩ := Bucket.get_some hk
      by_cases hp : p r
      · rw [if_neg (fun hmem => (hks r hr).mp hmem hp), Option.filter_some_pos hp]
        rfl
      · rw [if_pos ((hks r hr).mpr hp), Option.filter_some_neg (by simpa using hp)]
        rfl
  rw [hrecs, List.map_id]

end Loops

/-! ### Sources -/

namespace SourcesStore

variable {b b' : Bucket Source} {p : Source → Bool} {d s : Source}

/-- The source that becomes the default when those that fail `p` go: the first
of the others. -/
def heir (b : Bucket Source) (p : Source → Bool) : Option Source := b.recs.find? p

/-- The Default flag of `s` when the sources that fail `p` are gone: handed to
the heir if one of them had it. -/
def defaultWithout (b : Bucket Source) (p : Source → Bool) (s : Source) : Bool :=
  if b.recs.any fun g => !p g && g.default then heir b p = some s else s.default

/-- The source with the Default flag it has without those that fail `p`. -/
def reflagged (b : Bucket Source) (p : Source → Bool) (s : Source) : Source :=
  { s with default := defaultWithout b p s }

@[simp] theorem key_reflagged : key (reflagged b p s) = key s := rfl

@[simp] theorem reflagged_id : (reflagged b p s).id = s.id := rfl

@[simp] theorem reflagged_default : (reflagged b p s).default = defaultWithout b p s := rfl

/-- `b'` is `b` without the sources that fail `p`. -/
def Left (b : Bucket Source) (p : Source → Bool) (b' : Bucket Source) : Prop :=
  ∀ k, b'.get k = ((b.get k).filter p).map (reflagged b p)

theorem Left.recs (h : Left b p b') : b'.recs = (b.recs.filter p).map (reflagged b p) :=
  (Bucket.recs_eq_iff fun _ => key_reflagged).mpr h

/-- Nothing is gone yet. -/
theorem Left.refl (b : Bucket Source) : Left b (fun _ => true) b := by
  intro k
  have hflag : ∀ s, reflagged b (fun _ => true) s = s := by
    intro s
    simp [reflagged, defaultWithout]
  cases b.get k <;> simp [hflag]

/-- The heir stays the same when another source goes. -/
theorem heir_and (hd : d ∈ b.recs) (h : heir b p ≠ some d) :
    heir b (fun s => p s && s.id ≠ d.id) = heir b p := by
  unfold heir at h ⊢
  cases hx : b.recs.find? p with
  | none =>
    rw [List.find?_eq_none] at hx ⊢
    exact fun s hs hps => hx s hs (Bool.and_eq_true_iff.mp hps).1
  | some x =>
    obtain ⟨hpx, as, bs, hrecs, has⟩ := List.find?_eq_some_iff_append.mp hx
    have hne : x.id ≠ d.id := by
      intro hid
      have hxd : x = d := Bucket.eq_of_key (List.mem_of_find?_eq_some hx) hd hid
      exact h (by rw [hx, hxd])
    refine List.find?_eq_some_iff_append.mpr ⟨by simp [hpx, hne], as, bs, hrecs, fun y hy => ?_⟩
    have hpy := has y hy
    simp_all

/-- Without `d` as well: the default moves on if `d` had it. -/
theorem defaultWithout_and (hd : d ∈ b.recs) :
    defaultWithout b (fun s => p s && s.id ≠ d.id) s =
      if defaultWithout b p d then decide (heir b (fun s => p s && s.id ≠ d.id) = some s)
      else defaultWithout b p s := by
  have hany : (b.recs.any fun g => !(p g && g.id ≠ d.id) && g.default) =
      ((b.recs.any fun g => !p g && g.default) || d.default) := by
    rw [Bool.eq_iff_iff, Bool.or_eq_true, List.any_eq_true, List.any_eq_true]
    constructor
    · rintro ⟨g, hg, hflag⟩
      by_cases hid : g.id = d.id
      · have hgd : g = d := Bucket.eq_of_key hg hd hid
        exact .inr (by rw [← hgd]; exact (Bool.and_eq_true_iff.mp hflag).2)
      · exact .inl ⟨g, hg, by simpa [hid] using hflag⟩
    · rintro (⟨g, hg, hflag⟩ | hflag)
      · obtain ⟨hpg, hdef⟩ := Bool.and_eq_true_iff.mp hflag
        exact ⟨g, hg, by simp_all⟩
      · exact ⟨d, hd, by simp [hflag]⟩
  simp only [defaultWithout, hany]
  by_cases hgone : b.recs.any (fun g => !p g && g.default)
  · -- the default has moved on already, and moves again if it is with `d`
    simp only [hgone, Bool.true_or, if_true, decide_eq_true_eq]
    split
    · rfl
    · rename_i hne
      rw [heir_and hd hne]
  · simp only [Bool.not_eq_true] at hgone
    simp only [hgone, Bool.false_or, Bool.false_eq_true, if_false]

/-- Who is the heir shows in what is left. -/
theorem heir_map_eq_some {q : Source → Bool} (hs : s ∈ b.recs) :
    (heir b q).map (reflagged b p) = some (reflagged b p s) ↔ heir b q = some s := by
  rw [Option.map_eq_some_iff]
  constructor
  · rintro ⟨x, hx, hxs⟩
    have hid : key x = key s := by rw [← key_reflagged (b := b) (p := p), hxs, key_reflagged]
    rw [hx, Bucket.eq_of_key (List.mem_of_find?_eq_some hx) hs hid]
  · exact fun h => ⟨s, h, rfl⟩

/-- The first source of what is left, other than `d`. -/
theorem Left.successor (h : Left b p b') : successor b' d.id =
    (heir b fun s => p s && s.id ≠ d.id).map (reflagged b p) := by
  unfold SourcesStore.successor heir
  rw [h.recs, List.find?_map, List.find?_filter]
  congr 2
  funext s
  by_cases hid : s.id = d.id <;> simp [hid]

/-- Deleting one more source of what is left. -/
theorem Left.run_delete (ctx : Context) {db : Db} (h : Left b p db.sources) (hd : d ∈ b.recs) (hp : p d) :
    ∃ b', (delete ctx (reflagged b p d)).run db = (.ok (), { db with sources := b' }) ∧
      Left b (fun s => p s && s.id ≠ d.id) b' := by
  have hget : db.sources.get (reflagged b p d).id = some (reflagged b p d) := by
    rw [h, reflagged_id, ← key_source, Bucket.get_of_mem hd, Option.filter_some_pos hp]
    rfl
  have hgone : ((b.get d.id).filter fun s => p s && s.id ≠ d.id) = none := by
    rw [← key_source, Bucket.get_of_mem hd]
    exact Option.filter_some_neg (by simp)
  -- any other source that was left stays
  have hstays : ∀ k, k ≠ d.id → (b.get k).filter (fun s => p s && s.id ≠ d.id) = (b.get k).filter p := by
    intro k hk
    cases hs : b.get k with
    | none => rfl
    | some s =>
      have hid : s.id ≠ d.id := by
        rw [← key_source, (Bucket.get_some hs).2]
        exact hk
      simp [Option.filter_some, hid]
  cases hdef : defaultWithout b p d with
  | false =>
    refine ⟨_, run_delete_of_not_default ctx hget hdef, fun k => ?_⟩
    rw [Bucket.get_delete, reflagged_id]
    by_cases hk : k = d.id
    · rw [if_pos hk, hk, hgone]
      rfl
    · rw [if_neg hk, h, hstays k hk]
      refine Option.map_congr fun s _ => ?_
      rw [reflagged, reflagged, defaultWithout_and hd, hdef]
      rfl
  | true =>
    obtain ⟨b', hrun, hb'⟩ := run_delete_of_default ctx hget hdef
    refine ⟨b', hrun, fun k => ?_⟩
    rw [hb', reflagged_id]
    by_cases hk : k = d.id
    · rw [if_pos hk, hk, hgone]
      rfl
    · rw [if_neg hk, h, hstays k hk, Option.map_map]
      refine Option.map_congr fun s hs => ?_
      have hs : s ∈ b.recs := (Bucket.get_some (Option.filter_eq_some_iff.mp hs).1).1
      rw [reflagged, defaultWithout_and hd, hdef, if_pos rfl]
      simp only [Function.comp, h.successor, heir_map_eq_some hs]
      rfl

/-- The loop over the sources that the facade of an organization lists. -/
theorem run_deleteSources {org : String} {ctx : Context} (hctx : validOrganization ctx = .ok ()) :
    ∀ (ds : List Source) (p : Source → Bool) {db : Db}, Left b p db.sources →
      (∀ d ∈ ds, ∃ s ∈ b.recs, s.id = d.id ∧ p s) → (ds.map Source.id).Nodup →
      ∃ b', (Tx.forEach ds ((newResourcesStore sourcesStore org).delete ctx)).run db =
          (.ok (), { db with sources := b' }) ∧ Left b (fun s => p s && s.id ∉ ds.map Source.id) b'
  | [], p, db, h, _, _ => ⟨db.sources, rfl, by simpa using h⟩
  | d :: ds, p, db, h, hds, hn => by
    rw [List.map_cons, List.nodup_cons] at hn
    obtain ⟨s, hs, hid, hp⟩ := hds d (by simp)
    have hget : db.sources.get d.id = some (reflagged b p s) := by
      rw [h, ← hid, ← key_source, Bucket.get_of_mem hs, Option.filter_some_pos hp]
      rfl
    obtain ⟨b₁, hrun, h₁⟩ := h.run_delete ctx hs hp
    have hrest : ∀ c ∈ ds, ∃ x ∈ b.recs, x.id = c.id ∧ (p x && x.id ≠ s.id) := by
      intro c hc
      obtain ⟨x, hx, hxc, hpx⟩ := hds c (by simp [hc])
      have hne : x.id ≠ s.id := by
        rw [hxc, hid]
        exact fun heq => hn.1 (List.mem_map.mpr ⟨c, hc, heq⟩)
      exact ⟨x, hx, hxc, by simp [hpx, hne]⟩
    have hfacade : ((newResourcesStore sourcesStore org).delete ctx d).run db =
        (.ok (), { db with sources := b₁ }) := by
      rw [run_facade_delete owned hctx hget]
      exact hrun
    have hleft : Left b (fun x => p x && x.id ≠ s.id) { db with sources := b₁ }.sources := h₁
    obtain ⟨b₂, hrun', h₂⟩ := run_deleteSources hctx ds _ hleft hrest hn.2
    refine ⟨b₂, (Tx.run_bind_ok hfacade).trans hrun', ?_⟩
    have hp' : (fun x : Source => p x && decide (x.id ∉ (d :: ds).map Source.id)) =
        fun x => p x && decide (x.id ≠ s.id) && decide (x.id ∉ ds.map Source.id) := by
      funext x
      by_cases hx : x.id = d.id <;> simp [hx, hid]
    rw [hp']
    exact h₂

/-- What the bucket keeps depends on its own sources only. -/
theorem Left.congr {q : Source → Bool} (h : Left b p b') (hpq : ∀ s ∈ b.recs, p s = q s) : Left b q b' := by
  have hany : (b.recs.any fun g => !p g && g.default) = b.recs.any fun g => !q g && g.default := by
    rw [Bool.eq_iff_iff, List.any_eq_true, List.any_eq_true]
    refine exists_congr fun g => and_congr_right fun hg => ?_
    rw [hpq g hg]
  have hheir : heir b p = heir b q := List.find?_congr hpq
  have hflag : reflagged b p = reflagged b q := by
    funext s
    simp only [reflagged, defaultWithout, hany, hheir]
  intro k
  rw [h, hflag]
  cases hs : b.get k with
  | none => rfl
  | some s => simp only [Option.filter_some, hpq s (Bucket.get_some hs).1]

end SourcesStore

/-! ### Users -/

/-- The user without its roles in the organization. -/
def withoutRoles (org : String) (u : User) : User := { u with roles := u.rolesOutside org }

/-- The user is left alone if it has no role there. -/
theorem withoutRoles_of_nil {org : String} {u : User} (h : u.rolesIn org = []) : withoutRoles org u = u := by
  have hroles : u.rolesOutside org = u.roles := by
    refine List.filter_eq_self.mpr fun r hr => ?_
    have hne := List.filter_eq_nil_iff.mp h r hr
    simpa using hne
  rw [withoutRoles, hroles]

theorem run_facade_delete_user {org : String} {ctx : Context} (hctx : validOrganization ctx = .ok ()) {db : Db}
    {u usr : User} (h : db.users.get u.id = some usr) :
    ((newUsersStore usersStore org).delete ctx u).run db =
      (.ok (), { db with users := db.users.put (withoutRoles org usr) }) := by
  have hput : db.users.get (withoutRoles org usr).id = some usr := by
    have hid : usr.id = u.id := (Bucket.get_some h).2
    rw [← hid] at h
    exact h
  unfold newUsersStore Organizations.UsersStore.delete
  simp only [hctx, Tx.run_bind, Tx.run_ofExcept, usersStore_get, UsersStore.get, UsersStore.run_getID, h]
  exact UsersStore.run_update_of_some ctx hput

/-- The loop over users: those with the IDs of the list lose their roles there. -/
theorem run_deleteUsersEach {org : String} {ctx : Context} (hctx : validOrganization ctx = .ok ()) :
    ∀ (us : List User) {db : Db}, (us.map User.id).Nodup → (∀ u ∈ us, ∃ usr, db.users.get u.id = some usr) →
      ∃ b, (Tx.forEach us ((newUsersStore usersStore org).delete ctx)).run db = (.ok (), { db with users := b }) ∧
        ∀ k, b.get k = (db.users.get k).map fun u => if k ∈ us.map User.id then withoutRoles org u else u
  | [], db, _, _ => ⟨db.users, rfl, fun k => by simp⟩
  | u :: us, db, hn, hget => by
    rw [List.map_cons, List.nodup_cons] at hn
    obtain ⟨usr, husr⟩ := hget u (by simp)
    have hid : (withoutRoles org usr).id = u.id := (Bucket.get_some husr).2
    have hput : ∀ k, (db.users.put (withoutRoles org usr)).get k =
        if k = u.id then some (withoutRoles org usr) else db.users.get k := by
      intro k
      rw [Bucket.get_put (by simp), key_user, hid]
    have hrest : ∀ v ∈ us, ∃ usr',
        { db with users := db.users.put (withoutRoles org usr) }.users.get v.id = some usr' := by
      intro v hv
      have hne : v.id ≠ u.id := fun h => hn.1 (List.mem_map.mpr ⟨v, hv, h⟩)
      show ∃ usr', (db.users.put (withoutRoles org usr)).get v.id = some usr'
      rw [hput, if_neg hne]
      exact hget v (by simp [hv])
    obtain ⟨b, hrun, hb⟩ := run_deleteUsersEach hctx us hn.2 hrest
    refine ⟨b, (Tx.run_bind_ok (run_facade_delete_user hctx husr)).trans hrun, fun k => (hb k).trans ?_⟩
    show ((db.users.put (withoutRoles org usr)).get k).map _ = _
    by_cases hk : k = u.id
    · rw [hput, hk, if_pos rfl, husr]
      simp [hn.1]
    · rw [hput, if_neg hk]
      simp [hk]

/-! ### The whole deletion -/

/-- `db'` is `db` without the organization and what belongs to it; its
configuration stays. -/
structure WithoutOrganization (org : String) (db db' : Db) : Prop where
  organizations : db'.organizations = db.organizations.delete org
  sources : SourcesStore.Left db.sources (·.organization ≠ org) db'.sources
  servers : db'.servers.recs = db.servers.recs.filter (·.organization ≠ org)
  dashboards : db'.dashboards.recs = db.dashboards.recs.filter (·.organization ≠ org)
  users : db'.users.recs = db.users.recs.map (withoutRoles org)
  mappings : db'.mappings.recs = db.mappings.recs.filter (·.organization ≠ org)
  organizationConfigs : db'.organizationConfigs = db.organizationConfigs

section Deletion

variable {org : String} {ctx : Context} (hctx : validOrganization ctx = .ok ()) (db : Db)

include hctx

theorem run_deleteSources :
    ∃ b, (OrganizationsStore.deleteResources sourcesStore ctx org).run db = (.ok (), { db with sources := b }) ∧
      SourcesStore.Left db.sources (·.organization ≠ org) b := by
  have hall : ((newResourcesStore sourcesStore org).all ctx).run db =
      (.ok (db.sources.recs.filter fun d => d.organization = org), db) :=
    Organizations.run_facade_all_filter hctx rfl
  have hds : ∀ d ∈ db.sources.recs.filter (fun d => d.organization = org),
      ∃ s ∈ db.sources.recs, s.id = d.id ∧ (true : Bool) := by
    intro d hd
    exact ⟨d, (List.mem_filter.mp hd).1, rfl, rfl⟩
  have hn : ((db.sources.recs.filter fun d => d.organization = org).map Source.id).Nodup :=
    Bucket.nodup_keys_filter _
  obtain ⟨b, hrun, hleft⟩ :=
    SourcesStore.run_deleteSources hctx _ (fun _ => true) (SourcesStore.Left.refl db.sources) hds hn
  refine ⟨b, (Tx.run_bind_ok hall).trans hrun, hleft.congr fun s hs => ?_⟩
  have hmem := Bucket.key_mem_keys hs fun d => d.organization = org
  rw [Bool.true_and, decide_eq_decide]
  exact not_congr (hmem.trans (by simp))

theorem run_deleteServers :
    ∃ b, (OrganizationsStore.deleteResources serversStore ctx org).run db = (.ok (), { db with servers := b }) ∧
      b.recs = db.servers.recs.filter (·.organization ≠ org) := by
  have hall : ((newResourcesStore serversStore org).all ctx).run db =
      (.ok (db.servers.recs.filter fun d => d.organization = org), db) :=
    Organizations.run_facade_all_filter hctx rfl
  have hround : ∀ (d : Server) (b : Bucket Server) (r : Server), b.get (Server.id d) = some r →
      ((newResourcesStore serversStore org).delete ctx d).run { db with servers := b } =
        (.ok (), { db with servers := b.delete d.id }) := by
    intro d b r hr
    have hid : r.id = d.id := (Bucket.get_some hr).2
    rw [run_facade_delete ServersStore.owned hctx hr, ← hid]
    rfl
  obtain ⟨b, hrun, hb⟩ := run_deleteEach hround _ db.servers (Bucket.nodup_keys_filter _)
    fun d hd => ⟨d, Bucket.get_of_mem (List.mem_filter.mp hd).1⟩
  refine ⟨b, (Tx.run_bind_ok hall).trans hrun, recs_of_deleteEach (fun r hr => ?_) hb⟩
  exact (Bucket.key_mem_keys hr _).trans (by simp)

theorem run_deleteDashboards (ids : ℕ → String) :
    ∃ b, (OrganizationsStore.deleteResources (dashboardsStore ids) ctx org).run db =
        (.ok (), { db with dashboards := b }) ∧
      b.recs = db.dashboards.recs.filter (·.organization ≠ org) := by
  have hall : ((newResourcesStore (dashboardsStore ids) org).all ctx).run db =
      (.ok ((db.dashboards.recs.filter fun v => v.organization = org).map Internal.unmarshalDashboard), db) := by
    rw [Organizations.run_facade_all_filter hctx rfl, List.filter_map]
    rfl
  have hround : ∀ (d : Dashboard) (b : Bucket Internal.Dashboard) (r : Internal.Dashboard),
      b.get (Int.repr d.id) = some r →
      ((newResourcesStore (dashboardsStore ids) org).delete ctx d).run { db with dashboards := b } =
        (.ok (), { db with dashboards := b.delete (Int.repr d.id) }) := by
    intro d b r hr
    have hstored : DashboardsStore.stored { db with dashboards := b } d.id = some (Internal.unmarshalDashboard r) :=
      Option.map_eq_some_iff.mpr ⟨r, hr, rfl⟩
    have hid : r.id = d.id := DashboardsStore.id_of_stored hstored
    rw [run_facade_delete (DashboardsStore.owned ids) hctx hstored, ← hid]
    rfl
  have hkeys : (((db.dashboards.recs.filter fun v => v.organization = org).map Internal.unmarshalDashboard).map
      fun d => Int.repr d.id) = (db.dashboards.recs.filter fun v => v.organization = org).map key := List.map_map
  have hget : ∀ d ∈ (db.dashboards.recs.filter fun v => v.organization = org).map Internal.unmarshalDashboard,
      ∃ r, db.dashboards.get (Int.repr d.id) = some r := by
    intro d hd
    obtain ⟨r, hr, rfl⟩ := List.mem_map.mp hd
    exact ⟨r, Bucket.get_of_mem (List.mem_filter.mp hr).1⟩
  obtain ⟨b, hrun, hb⟩ := run_deleteEach hround _ db.dashboards
    (by rw [hkeys]; exact Bucket.nodup_keys_filter _) hget
  rw [hkeys] at hb
  refine ⟨b, (Tx.run_bind_ok hall).trans hrun, recs_of_deleteEach (fun r hr => ?_) hb⟩
  exact (Bucket.key_mem_keys hr _).trans (by simp)

theorem run_deleteUsers :
    ∃ b, (OrganizationsStore.deleteUsers ctx org).run db = (.ok (), { db with users := b }) ∧
      b.recs = db.users.recs.map (withoutRoles org) := by
  have hall : ((newUsersStore usersStore org).all ctx).run db =
      (.ok ((db.users.recs.filter fun u => u.rolesIn org ≠ []).map fun u => u.inOrganization org), db) :=
    Organizations.UsersStore.run_all hctx
  have hids : ∀ us : List User, (us.map fun u => u.inOrganization org).map User.id = us.map User.id :=
    fun us => List.map_map
  have hget : ∀ u ∈ (db.users.recs.filter fun u => u.rolesIn org ≠ []).map fun u => u.inOrganization org,
      ∃ usr, db.users.get u.id = some usr := by
    intro u hu
    obtain ⟨usr, husr, rfl⟩ := List.mem_map.mp hu
    exact ⟨usr, Bucket.get_of_mem (List.mem_filter.mp husr).1⟩
  have hn : ((db.users.recs.filter fun u => u.rolesIn org ≠ []).map User.id).Nodup := Bucket.nodup_keys_filter _
  obtain ⟨b, hrun, hb⟩ := run_deleteUsersEach hctx _ (by rw [hids]; exact hn) hget
  refine ⟨b, (Tx.run_bind_ok hall).trans hrun, ?_⟩
  rw [hids] at hb
  have hrecs : b.recs = (db.users.recs.filter fun _ => true).map (withoutRoles org) := by
    have hkey : ∀ u : User, key (withoutRoles org u) = key u := fun _ => rfl
    refine (Bucket.recs_eq_iff hkey).mpr fun k => ?_
    rw [hb]
    cases hk : db.users.get k with
    | none => rfl
    | some u =>
      obtain ⟨hu, rfl⟩ := Bucket.get_some hk
      have hmem : key u ∈ (db.users.recs.filter fun u => u.rolesIn org ≠ []).map User.id ↔
          decide (u.rolesIn org ≠ []) := Bucket.key_mem_keys hu _
      by_cases hin : u.rolesIn org = []
      · rw [Option.map_some, if_neg (fun h => by simpa [hin] using hmem.mp h)]
        exact congrArg some (withoutRoles_of_nil hin).symm
      · rw [Option.map_some, if_pos (hmem.mpr (by simpa using hin))]
        rfl
  rw [hrecs, List.filter_true]

end Deletion

theorem run_deleteMappings (org : String) (ctx : Context) (db : Db) :
    ∃ b, (OrganizationsStore.deleteMappings ctx org).run db = (.ok (), { db with mappings := b }) ∧
      b.recs = db.mappings.recs.filter (·.organization ≠ org) := by
  have hround : ∀ (m : Mapping) (b : Bucket Mapping) (r : Mapping), b.get m.id = some r →
      (MappingsStore.delete ctx m).run { db with mappings := b } =
        (.ok (), { db with mappings := b.delete m.id }) := by
    intro m b r hr
    unfold MappingsStore.delete MappingsStore.get
    rw [Tx.run_bind, Db.run_view]
    simp only [hr]
    rfl
  obtain ⟨b, hrun, hb⟩ := run_deleteEach hround (db.mappings.recs.filter fun m => m.organization = org) db.mappings
    (Bucket.nodup_keys_filter _) fun m hm => ⟨m, Bucket.get_of_mem (List.mem_filter.mp hm).1⟩
  refine ⟨b, ?_, recs_of_deleteEach (fun r hr => ?_) hb⟩
  · unfold OrganizationsStore.deleteMappings
    rw [Tx.run_bind]
    simp only [MappingsStore.all, Db.run_view]
    rw [Tx.forEach_filter]
    exact hrun
  · exact (Bucket.key_mem_keys hr _).trans (by simp)

namespace OrganizationsStore

/-- Deleting an organization that is there, and not the default one, goes
through to the end. -/
theorem run_delete (ids : ℕ → String) (ctx : Context) {db : Db} {o org : Organization}
    (hid : o.id ≠ defaultOrganizationID) (hget : db.organizations.get o.id = some org) :
    ∃ db', (delete ids ctx o).run db = (.ok (), db') ∧ WithoutOrganization o.id db db' := by
  have hblank : o.id ≠ "" := by
    have hkey := Bucket.not_blank_of_get hget
    rw [(Bucket.get_some hget).2] at hkey
    simpa [blank] using hkey
  have hctx : validOrganization (ctx.withOrganization o.id) = .ok () := by
    simp [validOrganization, Context.withOrganization, hblank]
  have hlookup : (getID o.id).run db = (.ok org, db) := by rw [run_getID, hget]
  have hremove : (remove o.id).run db = (.ok (), { db with organizations := db.organizations.delete o.id }) := rfl
  obtain ⟨b₁, hrun₁, hsources⟩ := run_deleteSources hctx { db with organizations := db.organizations.delete o.id }
  obtain ⟨b₂, hrun₂, hservers⟩ := run_deleteServers hctx
    { db with organizations := db.organizations.delete o.id, sources := b₁ }
  obtain ⟨b₃, hrun₃, hdashboards⟩ := run_deleteDashboards hctx
    { db with organizations := db.organizations.delete o.id, sources := b₁, servers := b₂ } ids
  obtain ⟨b₄, hrun₄, husers⟩ := run_deleteUsers hctx
    { db with organizations := db.organizations.delete o.id, sources := b₁, servers := b₂, dashboards := b₃ }
  obtain ⟨b₅, hrun₅, hmappings⟩ := run_deleteMappings o.id (ctx.withOrganization o.id)
    { db with
      organizations := db.organizations.delete o.id, sources := b₁, servers := b₂, dashboards := b₃, users := b₄ }
  refine ⟨{ db with
    organizations := db.organizations.delete o.id, sources := b₁, servers := b₂, dashboards := b₃, users := b₄,
    mappings := b₅ }, ?_, ⟨rfl, hsources, hservers, hdashboards, husers, hmappings, rfl⟩⟩
  unfold delete
  rw [if_neg hid, Tx.run_bind_ok hlookup, Tx.run_bind_ok hremove, Tx.run_bind_ok hrun₁, Tx.run_bind_ok hrun₂, Tx.run_bind_ok hrun₃,
    Tx.run_bind_ok hrun₄]
  exact hrun₅

/-- A deletion that succeeds was of an organization that is there, and not the
default one. -/
theorem stored_of_delete_ok {ids : ℕ → String} {ctx : Context} {db db' : Db} {o : Organization}
    (h : (delete ids ctx o).run db = (.ok (), db')) :
    o.id ≠ defaultOrganizationID ∧ ∃ org, db.organizations.get o.id = some org := by
  unfold delete at h
  split at h
  · cases h
  · rename_i hid
    refine ⟨hid, ?_⟩
    cases hget : db.organizations.get o.id with
    | some org => exact ⟨org, rfl⟩
    | none =>
      rw [Tx.run_bind, run_getID, hget] at h
      cases h

end OrganizationsStore

/-! ### Complete and confined -/

/-- No source, server, dashboard, user role or mapping is of the organization. -/
structure NothingOf (org : String) (db : Db) : Prop where
  sources : ∀ s ∈ db.sources.recs, s.organization ≠ org
  servers : ∀ s ∈ db.servers.recs, s.organization ≠ org
  dashboards : ∀ d ∈ db.dashboards.recs, d.organization ≠ org
  users : ∀ u ∈ db.users.recs, ∀ r ∈ u.roles, r.organization ≠ org
  mappings : ∀ m ∈ db.mappings.recs, m.organization ≠ org

/-- What is not of the organization is in `db'` as it is in `db`, a source `s`
up to the flag, which is `flag s`. -/
structure KeptBeside (org : String) (flag : Source → Bool) (db db' : Db) : Prop where
  organizations : ∀ k, k ≠ org → db'.organizations.get k = db.organizations.get k
  sources : db'.sources.recs.filter (·.organization ≠ org) =
    (db.sources.recs.filter (·.organization ≠ org)).map fun s => { s with default := flag s }
  servers : db'.servers.recs.filter (·.organization ≠ org) = db.servers.recs.filter (·.organization ≠ org)
  dashboards : db'.dashboards.recs.filter (·.organization ≠ org) = db.dashboards.recs.filter (·.organization ≠ org)
  users : db'.users.recs.map (withoutRoles org) = db.users.recs.map (withoutRoles org)
  mappings : db'.mappings.recs.filter (·.organization ≠ org) = db.mappings.recs.filter (·.organization ≠ org)
  organizationConfigs : ∀ k, k ≠ org → db'.organizationConfigs.get k = db.organizationConfigs.get k

namespace WithoutOrganization

variable {org : String} {db db' : Db}

theorem nothingOf (h : WithoutOrganization org db db') : NothingOf org db' where
  sources s hs := by
    rw [h.sources.recs] at hs
    obtain ⟨s', hs', rfl⟩ := List.mem_map.mp hs
    have hne : s'.organization ≠ org := by simpa using (List.mem_filter.mp hs').2
    exact hne
  servers s hs := by
    rw [h.servers] at hs
    simpa using (List.mem_filter.mp hs).2
  dashboards d hd := by
    rw [h.dashboards] at hd
    simpa using (List.mem_filter.mp hd).2
  users u hu r hr := by
    rw [h.users] at hu
    obtain ⟨u', -, rfl⟩ := List.mem_map.mp hu
    simpa using (List.mem_filter.mp hr).2
  mappings m hm := by
    rw [h.mappings] at hm
    simpa using (List.mem_filter.mp hm).2

theorem keptBeside (h : WithoutOrganization org db db') :
    KeptBeside org (SourcesStore.defaultWithout db.sources (·.organization ≠ org)) db db' where
  organizations k hk := by rw [h.organizations, Bucket.get_delete, if_neg hk]
  sources := by
    rw [h.sources.recs, List.filter_map, List.filter_filter]
    congr 2
    funext s
    by_cases hs : s.organization = org <;> simp [hs, SourcesStore.reflagged]
  servers := by rw [h.servers, List.filter_filter]; simp
  dashboards := by rw [h.dashboards, List.filter_filter]; simp
  users := by
    rw [h.users, List.map_map]
    refine List.map_congr_left fun u _ => ?_
    refine withoutRoles_of_nil (List.filter_eq_nil_iff.mpr fun r hr => ?_)
    simpa using (List.mem_filter.mp hr).2
  mappings := by rw [h.mappings, List.filter_filter]; simp
  organizationConfigs k _ := by rw [h.organizationConfigs]

end WithoutOrganization

/-- When an organization is deleted, nothing of it is left in the stores of
sources, servers, dashboards, users and mappings, and the other organizations
keep what they have; the default source, if it went, is now the first of the
others. -/
theorem delete_complete_and_confined (ids : ℕ → String) (ctx : Context) (o : Organization) (db db' : Db)
    (h : (OrganizationsStore.delete ids ctx o).run db = (.ok (), db')) :
    NothingOf o.id db' ∧
      KeptBeside o.id (SourcesStore.defaultWithout db.sources (·.organization ≠ o.id)) db db' := by
  obtain ⟨hid, org, hget⟩ := OrganizationsStore.stored_of_delete_ok h
  obtain ⟨db'', hrun, hwithout⟩ := OrganizationsStore.run_delete ids ctx hid hget
  rw [h] at hrun
  obtain rfl : db' = db'' := (Prod.mk.inj hrun).2
  exact ⟨hwithout.nothingOf, hwithout.keptBeside⟩

/-- Organization 1, which is to be deleted, has its configuration and the
default source; organization 2 has another source. -/
def exampleDeletionDb : Db :=
  let b := Bucket.empty.nextSequence.put ⟨1, "influx 1", "influx", "", "", "", "", "", false, true, "", "1", "", ""⟩
  { Db.empty with
    organizations := Bucket.empty.nextSequence.put ⟨"1", "Sales", "viewer"⟩
    sources := b.nextSequence.put ⟨2, "influx 2", "influx", "", "", "", "", "", false, false, "", "2", "", ""⟩
    organizationConfigs := Bucket.empty.put (OrganizationConfigStore.newOrganizationConfig "1") }

/-- What deleting organization 1 leaves of it. -/
def exampleDeletedDb : Db :=
  ((OrganizationsStore.delete (fun _ => "") {} ⟨"1", "Sales", "viewer"⟩).run exampleDeletionDb).2

theorem delete_complete_and_confined_example :
    NothingOf "1" exampleDeletedDb ∧
      KeptBeside "1" (SourcesStore.defaultWithout exampleDeletionDb.sources (·.organization ≠ "1")) exampleDeletionDb
        exampleDeletedDb :=
  delete_complete_and_confined (fun _ => "") {} ⟨"1", "Sales", "viewer"⟩ exampleDeletionDb exampleDeletedDb rfl

/-- The configuration of the deleted organization is still there, and the source
of organization 2 is not what it was: it has become the default. -/
theorem delete_not_complete_nor_confined :
    (OrganizationsStore.delete (fun _ => "") {} ⟨"1", "Sales", "viewer"⟩).run exampleDeletionDb =
      (.ok (), exampleDeletedDb) ∧
    ¬ (NothingOf "1" exampleDeletedDb ∧ exampleDeletedDb.organizationConfigs.get "1" = none) ∧
    ¬ KeptBeside "1" Source.default exampleDeletionDb exampleDeletedDb := by
  refine ⟨rfl, fun ⟨_, hconfig⟩ => ?_, fun hkept => ?_⟩
  · exact absurd hconfig (by decide)
  · exact absurd hkept.sources (by decide)

end Bolt
end Chronograf
