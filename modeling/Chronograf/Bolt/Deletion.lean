/-
# What deleting an organization does to users and organizations

Deleting an organization takes roles away and gives none, renames nobody, and
does not touch the default organization, however far it gets.

Key definition: `Shrinks`.
Key theorem: `OrganizationsStore.delete_shrinks`.
-/
import Chronograf.Bolt.Organizations
import Chronograf.Organizations.Lens

namespace Chronograf

open Bolt.OrganizationsStore (defaultOrganizationID)

namespace Bolt

/-- From `db` to `db'` users only lose roles, and organizations other than the
default one may be gone. -/
structure Shrinks (db db' : Db) : Prop where
  userSeq : db'.users.seq = db.users.seq
  users : ∀ u' ∈ db'.users.recs, ∃ u ∈ db.users.recs, u.id = u'.id ∧ u'.login = u.login ∧ u'.roles.Sublist u.roles
  organizationSeq : db'.organizations.seq = db.organizations.seq
  organizations : ∀ k o, db'.organizations.get k = some o → db.organizations.get k = some o
  default : db'.organizations.get defaultOrganizationID = db.organizations.get defaultOrganizationID

namespace Shrinks

variable {db db' : Db}

/-- Neither users nor organizations change. -/
theorem of_eq (hu : db'.users = db.users) (ho : db'.organizations = db.organizations) : Shrinks db db' := by
  refine ⟨by rw [hu], fun u hu' => ?_, by rw [ho], fun k o h => by rw [← ho]; exact h, by rw [ho]⟩
  rw [hu] at hu'
  exact ⟨u, hu', rfl, rfl, List.Sublist.refl _⟩

instance : IsPreorder Db Shrinks where
  refl _ := of_eq rfl rfl
  trans _ _ _ h h' := by
    refine ⟨h'.userSeq.trans h.userSeq, fun u'' hu'' => ?_, h'.organizationSeq.trans h.organizationSeq,
      fun k o hk => h.organizations k o (h'.organizations k o hk), h'.default.trans h.default⟩
    obtain ⟨u', hu', hid', hlogin', hroles'⟩ := h'.users u'' hu''
    obtain ⟨u, hu, hid, hlogin, hroles⟩ := h.users u' hu'
    exact ⟨u, hu, hid.trans hid', hlogin'.trans hlogin, hroles'.trans hroles⟩

/-- A user loses its roles in an organization. -/
theorem strip (org : String) {usr : User} (hget : db.users.get usr.id = some usr) :
    Shrinks db { db with users := db.users.put { usr with roles := usr.setRoles org [] } } := by
  refine ⟨by simp, fun u' hu' => ?_, rfl, fun _ _ h => h, rfl⟩
  rcases (Bucket.mem_put (by simp)).mp hu' with rfl | ⟨hu', -⟩
  · refine ⟨usr, (Bucket.get_some hget).1, rfl, rfl, ?_⟩
    show (usr.setRoles org []).Sublist usr.roles
    rw [User.setRoles, List.append_nil]
    exact List.filter_sublist
  · exact ⟨u', hu', rfl, rfl, List.Sublist.refl _⟩

/-- An organization that is not the default one is removed. -/
theorem remove {id : String} (hid : id ≠ defaultOrganizationID) :
    Shrinks db { db with organizations := db.organizations.delete id } := by
  refine ⟨rfl, fun u hu => ⟨u, hu, rfl, rfl, List.Sublist.refl _⟩, rfl, fun k o h => ?_, ?_⟩
  · rw [Bucket.get_delete] at h
    split_ifs at h
    exact h
  · rw [Bucket.get_delete, if_neg hid.symm]

end Shrinks

/-! ### The steps of a deletion -/

open Tx (Within)

section Steps

variable (ctx : Context)

/-- A store of records that are neither users nor organizations. -/
structure Apart {ρ ι : Type} (s : ResourcesStore Db ρ ι) : Prop where
  all : ∀ ctx, Within Shrinks (s.all ctx)
  get : ∀ ctx id, Within Shrinks (s.get ctx id)
  delete : ∀ ctx r, Within Shrinks (s.delete ctx r)

theorem sourcesStore_apart : Apart sourcesStore where
  all _ := .view
  get _ _ := .view
  delete _ src := by
    refine .update fun db a db' h => ?_
    rcases hb : SourcesStore.setRandomDefault db.sources src with e | b
    · simp [hb, bind, Except.bind] at h
    · simp only [hb, bind, Except.bind, Except.ok.injEq, Prod.mk.injEq] at h
      obtain ⟨-, rfl⟩ := h
      exact .of_eq rfl rfl

theorem serversStore_apart : Apart serversStore where
  all _ := .view
  get _ _ := .view
  delete _ src := by
    refine .update fun db a db' h => ?_
    obtain ⟨-, rfl⟩ := Prod.mk.inj (Except.ok.inj h)
    exact .of_eq rfl rfl

theorem dashboardsStore_apart (ids : ℕ → String) : Apart (dashboardsStore ids) where
  all _ := .view
  get _ _ := .view
  delete _ dash := by
    refine .update fun db a db' h => ?_
    obtain ⟨-, rfl⟩ := Prod.mk.inj (Except.ok.inj h)
    exact .of_eq rfl rfl

theorem deleteResources_shrinks {ρ ι : Type} [Resource ρ ι] {s : ResourcesStore Db ρ ι} (hs : Apart s)
    (orgID : String) : Within Shrinks (OrganizationsStore.deleteResources s ctx orgID) := by
  refine .bind (.bind .ofExcept fun _ => .bind (hs.all ctx) fun ds => .pure) fun ds => .forEach fun d _ => ?_
  exact .bind .ofExcept fun _ => .bind (hs.get ctx _) fun d => hs.delete ctx d

/-- The facade's `Delete` takes one user's roles. -/
theorem users_delete_shrinks (org : String) (u : User) :
    Within Shrinks ((Organizations.newUsersStore usersStore org).delete ctx u) := by
  intro db
  rcases Organizations.UsersStore.delete_cases org ctx u db with ⟨e, hrun⟩ | ⟨usr, hget, hrun⟩
  · rw [Organizations.newUsersStore_delete, hrun]
    exact refl_of Shrinks db
  · rw [Organizations.newUsersStore_delete, hrun]
    have hid : usr.id = u.id := (Bucket.get_some hget).2
    exact .strip org (hid.symm ▸ hget)

theorem deleteUsers_shrinks (orgID : String) : Within Shrinks (OrganizationsStore.deleteUsers ctx orgID) := by
  refine .bind (.bind .ofExcept fun _ => .bind .view fun usrs => .pure) fun usrs => .forEach fun u _ => ?_
  exact users_delete_shrinks ctx orgID u

theorem deleteMappings_shrinks (orgID : String) : Within Shrinks (OrganizationsStore.deleteMappings ctx orgID) := by
  refine .bind .view fun mappings => .forEach fun mapping _ => .ite (.bind .view fun _ => .update ?_) .pure
  intro db a db' h
  obtain ⟨-, rfl⟩ := Prod.mk.inj (Except.ok.inj h)
  exact .of_eq rfl rfl

end Steps

/-- However far a deletion gets, users only lose roles and the default
organization stays. -/
theorem OrganizationsStore.delete_shrinks (ids : ℕ → String) (ctx : Context) (o : Organization) :
    Within Shrinks (OrganizationsStore.delete ids ctx o) := by
  unfold OrganizationsStore.delete
  by_cases hid : o.id = defaultOrganizationID
  · rw [if_pos hid]
    exact .fail
  · rw [if_neg hid]
    refine .bind .view fun _ => .bind (.update ?_) fun _ => ?_
    · intro db a db' h
      obtain ⟨-, rfl⟩ := Prod.mk.inj (Except.ok.inj h)
      exact .remove hid
    · refine .bind (deleteResources_shrinks _ sourcesStore_apart _) fun _ => ?_
      refine .bind (deleteResources_shrinks _ serversStore_apart _) fun _ => ?_
      refine .bind (deleteResources_shrinks _ (dashboardsStore_apart ids) _) fun _ => ?_
      exact .bind (deleteUsers_shrinks _ _) fun _ => deleteMappings_shrinks _ _

end Bolt
end Chronograf
