/-
# Deletions that are cut short

Deleting an organization removes its record in the second of its transactions
and what belongs to it in those that follow. A call that is cut short after the
second has done part of the work, and another call does not do the rest: it no
longer finds the organization.

Key definition: `Completable`.
Key theorem: `completable_iff`.
-/
import Chronograf.Bolt.Dependents
import Chronograf.Lib.Cut

namespace Chronograf

open Bolt.OrganizationsStore (defaultOrganizationID)

namespace Bolt

open Tx (Throughout)

/-! ### The rest of a deletion leaves the organizations alone -/

section Rest

/-- The organizations are the same. -/
def SameOrganizations (db db' : Db) : Prop := db'.organizations = db.organizations

instance : IsPreorder Db SameOrganizations where
  refl _ := rfl
  trans _ _ _ h h' := h'.trans h

/-- No transaction of a deletion through this store touches the organizations. -/
structure LeavesOrganizations {ρ ι : Type} (s : ResourcesStore Db ρ ι) : Prop where
  all : ∀ ctx, Throughout SameOrganizations (s.all ctx)
  get : ∀ ctx id, Throughout SameOrganizations (s.get ctx id)
  delete : ∀ ctx r, Throughout SameOrganizations (s.delete ctx r)

theorem sourcesStore_leaves : LeavesOrganizations sourcesStore where
  all _ := .view
  get _ _ := .view
  delete _ src := by
    refine .update fun db a db' h => ?_
    rcases hb : SourcesStore.setRandomDefault db.sources src with e | b
    · simp [hb, bind, Except.bind] at h
    · simp only [hb, bind, Except.bind, Except.ok.injEq, Prod.mk.injEq] at h
      obtain ⟨-, rfl⟩ := h
      rfl

theorem serversStore_leaves : LeavesOrganizations serversStore where
  all _ := .view
  get _ _ := .view
  delete ctx src := by
    show Throughout _ (ServersStore.delete ctx src)
    unfold ServersStore.delete Db.update
    refine .update ?_
    intro db a db' h
    obtain ⟨-, rfl⟩ := Prod.mk.inj (Except.ok.inj h)
    rfl

theorem dashboardsStore_leaves (ids : ℕ → String) : LeavesOrganizations (dashboardsStore ids) where
  all _ := .view
  get _ _ := .view
  delete ctx dash := by
    show Throughout _ (DashboardsStore.delete ctx dash)
    unfold DashboardsStore.delete Db.update
    refine .update ?_
    intro db a db' h
    obtain ⟨-, rfl⟩ := Prod.mk.inj (Except.ok.inj h)
    rfl

theorem deleteResources_leaves {ρ ι : Type} [Resource ρ ι] {s : ResourcesStore Db ρ ι} (hs : LeavesOrganizations s)
    (ctx : Context) (orgID : String) :
    Throughout SameOrganizations (OrganizationsStore.deleteResources s ctx orgID) := by
  refine .bind (.bind .ofExcept fun _ => .bind (hs.all ctx) fun ds => .pure) fun ds => .forEach fun d _ => ?_
  exact .bind .ofExcept fun _ => .bind (hs.get ctx _) fun d => hs.delete ctx d

theorem deleteUsers_leaves (ctx : Context) (orgID : String) :
    Throughout SameOrganizations (OrganizationsStore.deleteUsers ctx orgID) := by
  refine .bind (.bind .ofExcept fun _ => .bind .view fun usrs => .pure) fun usrs => .forEach fun u _ => ?_
  refine .bind .ofExcept fun _ => .bind .view fun u => .bind .view fun _ => ?_
  unfold UsersStore.put Db.update
  refine .update ?_
  intro db a db' h
  obtain ⟨-, rfl⟩ := Prod.mk.inj (Except.ok.inj h)
  rfl

theorem deleteMappings_leaves (ctx : Context) (orgID : String) :
    Throughout SameOrganizations (OrganizationsStore.deleteMappings ctx orgID) := by
  refine .bind .view fun mappings => .forEach fun mapping _ => .ite (.bind .view fun _ => .update ?_) .pure
  intro db a db' h
  obtain ⟨-, rfl⟩ := Prod.mk.inj (Except.ok.inj h)
  rfl

end Rest

/-! ### Where a deletion may be cut -/

/-- The store `db'` that a deletion of `o` left is `db`, or deleting `o` again
succeeds and leaves nothing of it, its configuration included. -/
def Completable (ids : ℕ → String) (ctx : Context) (o : Organization) (db db' : Db) : Prop :=
  db' = db ∨ ∃ db'', (OrganizationsStore.delete ids ctx o).run db' = (.ok (), db'') ∧
    NothingOf o.id db'' ∧ db''.organizationConfigs.get o.id = none

section Cuts

variable {ids : ℕ → String} {ctx : Context} {o : Organization} {db : Db} (fails : Bool) {n : ℕ}

/-- Up to the removal of the record nothing has been written. -/
theorem cut_delete_early (hn : n ≤ 1) : (OrganizationsStore.delete ids ctx o).cut fails n db = db := by
  unfold OrganizationsStore.delete
  by_cases hid : o.id = defaultOrganizationID
  · rw [if_pos hid]
    cases n <;> rfl
  rw [if_neg hid]
  cases n with
  | zero => exact Tx.cut_zero_view_bind
  | succ n =>
    obtain rfl : n = 0 := by omega
    cases hget : db.organizations.get o.id with
    | none =>
      unfold OrganizationsStore.getID Db.view
      exact Tx.cut_view_bind_error (e := .errOrganizationNotFound) (by rw [hget])
    | some org =>
      unfold OrganizationsStore.getID Db.view
      rw [Tx.cut_view_bind (a := org) (by rw [hget])]
      unfold OrganizationsStore.remove Db.update
      exact Tx.cut_zero_update_bind

/-- Once the record is removed it stays so. -/
theorem cut_delete_late (hid : o.id ≠ defaultOrganizationID)
    (hn : n + 2 < (OrganizationsStore.delete ids ctx o).count db) :
    (∃ org, db.organizations.get o.id = some org) ∧
      ((OrganizationsStore.delete ids ctx o).cut fails (n + 2) db).organizations = db.organizations.delete o.id := by
  unfold OrganizationsStore.delete at hn ⊢
  rw [if_neg hid] at hn ⊢
  unfold OrganizationsStore.getID Db.view at hn ⊢
  cases hget : db.organizations.get o.id with
  | none =>
    rw [Tx.count_view_bind_error (e := .errOrganizationNotFound) (by rw [hget])] at hn
    omega
  | some org =>
    refine ⟨⟨org, rfl⟩, ?_⟩
    rw [Tx.cut_view_bind (a := org) (by rw [hget])]
    unfold OrganizationsStore.remove Db.update
    rw [Tx.cut_update_bind rfl]
    refine Throughout.cut (R := SameOrganizations) ?_ fails n _
    refine .bind (deleteResources_leaves sourcesStore_leaves _ _) fun _ => ?_
    refine .bind (deleteResources_leaves serversStore_leaves _ _) fun _ => ?_
    refine .bind (deleteResources_leaves (dashboardsStore_leaves ids) _ _) fun _ => ?_
    exact .bind (deleteUsers_leaves _ _) fun _ => deleteMappings_leaves _ _

end Cuts

/-- A deletion that is cut short after `n` of its transactions can be completed
if and only if it had not removed the organization's record yet, which is the
second of them. -/
theorem completable_iff (ids ids' : ℕ → String) (ctx ctx' : Context) (o : Organization) (db : Db) (fails : Bool)
    (n : ℕ) (hid : o.id ≠ defaultOrganizationID) (hn : n < (OrganizationsStore.delete ids ctx o).count db) :
    Completable ids' ctx' o db ((OrganizationsStore.delete ids ctx o).cut fails n db) ↔ n ≤ 1 := by
  constructor
  · intro h
    by_contra hlate
    obtain ⟨m, rfl⟩ : ∃ m, n = m + 2 := ⟨n - 2, by omega⟩
    obtain ⟨⟨org, hget⟩, horgs⟩ := cut_delete_late fails hid hn
    have hgone : ((OrganizationsStore.delete ids ctx o).cut fails (m + 2) db).organizations.get o.id = none := by
      rw [horgs, Bucket.get_delete, if_pos rfl]
    rcases h with hsame | ⟨db'', hrun, -⟩
    · rw [hsame, hget] at hgone
      cases hgone
    · obtain ⟨-, org', hget'⟩ := OrganizationsStore.stored_of_delete_ok hrun
      rw [hgone] at hget'
      cases hget'
  · exact fun h => .inl (cut_delete_early fails h)

/-- Organization 1 of `exampleDeletionDb`. -/
def exampleDeletedOrganization : Organization := ⟨"1", "Sales", "viewer"⟩

theorem completable_iff_example :
    Completable (fun _ => "") {} exampleDeletedOrganization exampleDeletionDb
      ((OrganizationsStore.delete (fun _ => "") {} exampleDeletedOrganization).cut true 1 exampleDeletionDb) ↔ 1 ≤ 1 :=
  completable_iff (fun _ => "") (fun _ => "") {} {} exampleDeletedOrganization exampleDeletionDb true 1 (by decide)
    (by decide)

/-- The third transaction of the deletion fails, the one that lists the sources:
the organization is gone, and deleting it again is refused. -/
theorem deletion_not_completable :
    2 < (OrganizationsStore.delete (fun _ => "") {} exampleDeletedOrganization).count exampleDeletionDb ∧
    ¬ Completable (fun _ => "") {} exampleDeletedOrganization exampleDeletionDb
      ((OrganizationsStore.delete (fun _ => "") {} exampleDeletedOrganization).cut true 2 exampleDeletionDb) := by
  refine ⟨by decide, ?_⟩
  rintro (hsame | ⟨db'', hrun, -⟩)
  · have hget := congrArg (fun db : Db => db.organizations.get "1") hsame
    exact absurd hget (by decide)
  · have hrefused : (Except.error .errOrganizationNotFound : Except Error Unit) = .ok () := congrArg Prod.fst hrun
    cases hrefused

end Bolt
end Chronograf
