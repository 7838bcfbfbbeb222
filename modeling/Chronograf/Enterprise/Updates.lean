/-
# What the updates of users and roles reach

The state of the service as sets (`View`), and what each program does to it: an
action on one user or role, the difference of two lists posted in two actions,
a whole update. `UserStore.Update` returns no error when the roles cannot be
read, and of the entries for one database `ToEnterprise` keeps the last one;
otherwise an update that returns no error has reached what was requested.

Key definitions: `View`, `Meta.view`, `Does`, `Needs`, `Requested`, `LastAllowsAll`.
Key theorem: `updates_reach_iff`.
-/
import Chronograf.Enterprise.Meta
import Mathlib.Data.List.Induction
import Mathlib.Data.Set.Insert

namespace Chronograf
namespace Enterprise

/-! ### Maps of permissions -/

namespace Permissions

variable {perms : Permissions} {db scope p : String} {allowed : List String}

theorem not_has_empty : ¬ empty.Has db p := fun h => nomatch h.1

theorem has_set : (perms.set scope allowed).Has db p ↔ if db = scope then p ∈ allowed else perms.Has db p := by
  have hscopes : db ∈ (perms.set scope allowed).scopes ↔ db ∈ perms.scopes ∨ db = scope := by
    unfold set
    split_ifs with h
    · exact ⟨.inl, fun hdb => hdb.elim id fun heq => heq ▸ h⟩
    · rw [List.mem_append, List.mem_singleton]
  rw [Has, hscopes]
  by_cases hdb : db = scope
  · subst hdb
    simp [set]
  · simp [set, Has, hdb]

theorem mem_pairs : (db, p) ∈ perms.pairs ↔ perms.Has db p := by
  simp [pairs, Has]

theorem mem_scopes_set : db ∈ (perms.set scope allowed).scopes ↔ db ∈ perms.scopes ∨ db = scope := by
  unfold set
  split_ifs with h
  · exact ⟨.inl, fun hdb => hdb.elim id fun heq => heq ▸ h⟩
  · rw [List.mem_append, List.mem_singleton]

/-- Without keys there is nothing. -/
theorem not_has_of_length (h : ¬ perms.scopes.length > 0) : ¬ perms.Has db p := by
  have hnil : perms.scopes = [] := List.eq_nil_of_length_eq_zero (Nat.eq_zero_of_not_pos h)
  rintro ⟨hdb, -⟩
  rw [hnil] at hdb
  cases hdb

/-- Lists set for some of the keys. -/
theorem has_foldl_set {keep : String → Prop} [DecidablePred keep] {f : String → List String} :
    ∀ {l : List String} {m : Permissions}, (l.foldl (fun m scope => if keep scope then m else m.set scope (f scope)) m).Has db p ↔
      if db ∈ l ∧ ¬ keep db then p ∈ f db else m.Has db p
  | [], m => by simp
  | scope :: l, m => by
    rw [List.foldl_cons, has_foldl_set]
    by_cases hdb : db ∈ l ∧ ¬ keep db
    · rw [if_pos hdb, if_pos ⟨List.mem_cons_of_mem _ hdb.1, hdb.2⟩]
    · rw [if_neg hdb]
      by_cases hkeep : keep scope
      · rw [if_pos hkeep, if_neg]
        rintro ⟨hmem, hnot⟩
        rcases List.mem_cons.mp hmem with rfl | hmem
        · exact hnot hkeep
        · exact hdb ⟨hmem, hnot⟩
      · rw [if_neg hkeep, has_set]
        by_cases heq : db = scope
        · subst heq
          rw [if_pos rfl, if_pos ⟨List.mem_cons_self, hkeep⟩]
        · rw [if_neg heq, if_neg]
          rintro ⟨hmem, hnot⟩
          exact hdb ⟨(List.mem_cons.mp hmem).resolve_left heq, hnot⟩

/-- Lists set for all of the keys. -/
theorem has_foldl_set_all {f : String → List String} {l : List String} {m : Permissions} :
    (l.foldl (fun m scope => m.set scope (f scope)) m).Has db p ↔ if db ∈ l then p ∈ f db else m.Has db p := by
  have h : (l.foldl (fun m scope => if False then m else m.set scope (f scope)) m).Has db p ↔
      if db ∈ l ∧ ¬ False then p ∈ f db else m.Has db p := has_foldl_set
  simpa using h

end Permissions

open Permissions

theorem mem_difference {wants haves : List String} {p : String} :
    (p ∈ (difference wants haves).1 ↔ p ∈ haves ∧ p ∉ wants) ∧ (p ∈ (difference wants haves).2 ↔ p ∈ wants ∧ p ∉ haves) := by
  simp [difference]

/-- What is removed is there and not wanted, what is added is wanted and not there. -/
theorem has_permissionsDifference (wants haves : Permissions) (db p : String) :
    ((permissionsDifference wants haves).1.Has db p ↔ haves.Has db p ∧ ¬ wants.Has db p) ∧
      ((permissionsDifference wants haves).2.Has db p ↔ wants.Has db p ∧ ¬ haves.Has db p) := by
  unfold permissionsDifference
  rw [has_foldl_set, has_foldl_set, has_foldl_set_all]
  have hwants : wants.Has db p ↔ db ∈ wants.scopes ∧ p ∈ wants.allowed db := Iff.rfl
  have hhaves : haves.Has db p ↔ db ∈ haves.scopes ∧ p ∈ haves.allowed db := Iff.rfl
  by_cases hw : db ∈ wants.scopes <;> by_cases hh : db ∈ haves.scopes <;>
    simp [hw, hh, hwants, hhaves, mem_difference, not_has_empty]

/-! ### The state as sets -/

/-- Users, roles and, for each of them, permissions and members. -/
@[ext]
structure View where
  users : Set String
  roles : Set String
  userHas : String → String → String → Prop
  roleHas : String → String → String → Prop
  members : String → String → Prop

def Meta.view (s : Meta) : View where
  users := {u | (s.users.lookup u).isSome}
  roles := {r | (s.roles.lookup r).isSome}
  userHas u db p := ∃ g, s.users.lookup u = some g ∧ (db, p) ∈ g
  roleHas name db p := ∃ r, s.roles.lookup name = some r ∧ (db, p) ∈ r.permissions
  members name u := ∃ r, s.roles.lookup name = some r ∧ u ∈ r.users

namespace View

/-- The permissions of one user are these. -/
def setUserHas (v : View) (name : String) (H : String → String → Prop) : View :=
  { v with userHas := fun u db p => if u = name then H db p else v.userHas u db p }

def setRoleHas (v : View) (name : String) (H : String → String → Prop) : View :=
  { v with roleHas := fun r db p => if r = name then H db p else v.roleHas r db p }

/-- The members of one role are these. -/
def setMembers (v : View) (name : String) (M : String → Prop) : View :=
  { v with members := fun r u => if r = name then M u else v.members r u }

/-- The roles of one user are these. -/
def setRolesOf (v : View) (user : String) (R : String → Prop) : View :=
  { v with members := fun r u => if u = user then R r else v.members r u }

def addRole (v : View) (name : String) : View := { v with roles := insert name v.roles }

/-- Users become members of roles. -/
def join (v : View) (R M : String → Prop) : View := { v with members := fun r u => v.members r u ∨ R r ∧ M u }

def leave (v : View) (R M : String → Prop) : View := { v with members := fun r u => v.members r u ∧ ¬ (R r ∧ M u) }

theorem setUserHas_setUserHas (v : View) (name : String) (H H' : String → String → Prop) :
    (v.setUserHas name H).setUserHas name H' = v.setUserHas name H' := by
  ext u db p <;> try rfl
  by_cases hu : u = name <;> simp [setUserHas, hu]

theorem setRoleHas_setRoleHas (v : View) (name : String) (H H' : String → String → Prop) :
    (v.setRoleHas name H).setRoleHas name H' = v.setRoleHas name H' := by
  ext r db p <;> try rfl
  by_cases hr : r = name <;> simp [setRoleHas, hr]

end View

section Views

variable {s : Meta} {name : String}

theorem lookup_setUser (g : Grants) (u : String) :
    (s.setUser name g).users.lookup u = if u = name then some g else s.users.lookup u := by
  by_cases hu : u = name
  · subst hu
    rw [if_pos rfl]
    exact AList.lookup_insert _
  · rw [if_neg hu]
    exact AList.lookup_insert_ne hu

theorem lookup_setRole (r : Role) (n : String) :
    (s.setRole name r).roles.lookup n = if n = name then some r else s.roles.lookup n := by
  by_cases hn : n = name
  · subst hn
    rw [if_pos rfl]
    exact AList.lookup_insert _
  · rw [if_neg hn]
    exact AList.lookup_insert_ne hn

theorem view_setUser (h : name ∈ s.view.users) (g : Grants) :
    (s.setUser name g).view = s.view.setUserHas name fun db p => (db, p) ∈ g := by
  have hroles : (s.setUser name g).roles = s.roles := rfl
  ext u
  · by_cases hu : u = name
    · subst hu
      exact iff_of_true (by simp [Meta.view, lookup_setUser]) h
    · simp [Meta.view, lookup_setUser, View.setUserHas, hu]
  · simp [Meta.view, View.setUserHas, hroles]
  · by_cases hu : u = name <;> simp [Meta.view, lookup_setUser, View.setUserHas, hu]
  · simp [Meta.view, View.setUserHas, hroles]
  · simp [Meta.view, View.setUserHas, hroles]

theorem view_setRole (h : name ∈ s.view.roles) (r : Role) :
    (s.setRole name r).view = (s.view.setRoleHas name fun db p => (db, p) ∈ r.permissions).setMembers name fun u => u ∈ r.users := by
  have husers : (s.setRole name r).users = s.users := rfl
  ext n
  · simp [Meta.view, View.setRoleHas, View.setMembers, husers]
  · by_cases hn : n = name
    · subst hn
      exact iff_of_true (by simp [Meta.view, lookup_setRole]) h
    · simp [Meta.view, lookup_setRole, View.setRoleHas, View.setMembers, hn]
  · simp [Meta.view, View.setRoleHas, View.setMembers, husers]
  · by_cases hn : n = name <;> simp [Meta.view, lookup_setRole, View.setRoleHas, View.setMembers, hn]
  · by_cases hn : n = name <;> simp [Meta.view, lookup_setRole, View.setRoleHas, View.setMembers, hn]

/-- What is set to what it was. -/
theorem setUserHas_self {g : Grants} (h : s.users.lookup name = some g) :
    s.view.setUserHas name (fun db p => (db, p) ∈ g) = s.view := by
  have hhas : ∀ u db p, (if u = name then (db, p) ∈ g else s.view.userHas u db p) ↔ s.view.userHas u db p := by
    intro u db p
    split_ifs with hu
    · subst hu
      simp [Meta.view, h]
    · exact Iff.rfl
  unfold View.setUserHas
  simp only [hhas]

theorem setRoleHas_self {r : Role} (h : s.roles.lookup name = some r) :
    s.view.setRoleHas name (fun db p => (db, p) ∈ r.permissions) = s.view := by
  have hhas : ∀ n db p, (if n = name then (db, p) ∈ r.permissions else s.view.roleHas n db p) ↔ s.view.roleHas n db p := by
    intro n db p
    split_ifs with hn
    · subst hn
      simp [Meta.view, h]
    · exact Iff.rfl
  unfold View.setRoleHas
  simp only [hhas]

theorem setMembers_self {r : Role} (h : s.roles.lookup name = some r) :
    s.view.setMembers name (fun u => u ∈ r.users) = s.view := by
  have hmembers : ∀ n u, (if n = name then u ∈ r.users else s.view.members n u) ↔ s.view.members n u := by
    intro n u
    split_ifs with hn
    · subst hn
      simp [Meta.view, h]
    · exact Iff.rfl
  unfold View.setMembers
  simp only [hmembers]

/-- Other permissions for a role. -/
theorem view_setRole_permissions {r : Role} (h : s.roles.lookup name = some r) (g : Grants) :
    (s.setRole name { r with permissions := g }).view = s.view.setRoleHas name fun db p => (db, p) ∈ g := by
  have hmem : name ∈ s.view.roles := by
    show (s.roles.lookup name).isSome
    rw [h]
    rfl
  have hself := setMembers_self h
  calc (s.setRole name { r with permissions := g }).view
      = (s.view.setMembers name fun u => u ∈ r.users).setRoleHas name fun db p => (db, p) ∈ g := view_setRole hmem _
    _ = s.view.setRoleHas name fun db p => (db, p) ∈ g := by rw [hself]

/-- Other users for a role. -/
theorem view_setRole_users {r : Role} (h : s.roles.lookup name = some r) (users : List String) :
    (s.setRole name { r with users := users }).view = s.view.setMembers name fun u => u ∈ users := by
  have hmem : name ∈ s.view.roles := by
    show (s.roles.lookup name).isSome
    rw [h]
    rfl
  have hself := setRoleHas_self h
  calc (s.setRole name { r with users := users }).view
      = (s.view.setRoleHas name fun db p => (db, p) ∈ r.permissions).setMembers name fun u => u ∈ users := view_setRole hmem _
    _ = s.view.setMembers name fun u => u ∈ users := by rw [hself]

end Views

/-! ### What programs do -/

/-- In the states of `pre` the program succeeds and changes the sets by `eff`. -/
def Does (p : Client Unit) (pre : View → Prop) (eff : View → View) : Prop :=
  ∀ s, pre s.view → ∃ s', p.run s = (.ok (), s') ∧ s'.view = eff s.view

/-- In other states it ends in an error. -/
def Needs (p : Client Unit) (pre : View → Prop) : Prop := ∀ s, ¬ pre s.view → ∃ e s', p.run s = (.error e, s')

section Programs

variable {p q : Client Unit} {pre pre' : View → Prop} {eff eff' : View → View} {name : String}

theorem Does.pure : Does (Pure.pure ()) (fun _ => True) id := fun s _ => ⟨s, rfl, rfl⟩

theorem Does.bind (hp : Does p pre eff) (hq : Does q pre' eff') :
    Does (p >>= fun _ => q) (fun v => pre v ∧ pre' (eff v)) (eff' ∘ eff) := by
  rintro s ⟨hpre, hpre'⟩
  obtain ⟨s₁, hrun, hview⟩ := hp s hpre
  obtain ⟨s₂, hrun', hview'⟩ := hq s₁ (hview ▸ hpre')
  refine ⟨s₂, (Tx.run_bind_ok hrun).trans hrun', ?_⟩
  rw [hview', hview]
  rfl

theorem Does.congr (h : Does p pre eff) (hpre : ∀ v, pre' v → pre v) (heff : ∀ v, pre' v → eff v = eff' v) :
    Does p pre' eff' := by
  intro s hs
  obtain ⟨s', hrun, hview⟩ := h s (hpre _ hs)
  exact ⟨s', hrun, hview.trans (heff _ hs)⟩

theorem Needs.pure : Needs (Pure.pure ()) fun _ => True := fun _ h => absurd trivial h

theorem Does.bind_needs (hp : Does p pre eff) (hneeds : Needs p pre) (hq : Needs q pre') :
    Needs (p >>= fun _ => q) fun v => pre v ∧ pre' (eff v) := by
  intro s hs
  by_cases hpre : pre s.view
  · obtain ⟨s₁, hrun, hview⟩ := hp s hpre
    obtain ⟨e, s₂, hrun'⟩ := hq s₁ fun hpre' => hs ⟨hpre, hview ▸ hpre'⟩
    exact ⟨e, s₂, (Tx.run_bind_ok hrun).trans hrun'⟩
  · obtain ⟨e, s₁, hrun⟩ := hneeds s hpre
    exact ⟨e, s₁, Tx.run_bind_error hrun⟩

/-- A program that ends with a value was run in a state of `pre` and has done what it does. -/
theorem Does.of_ok (h : Does p pre eff) (hneeds : Needs p pre) {s s' : Meta} (hrun : p.run s = (.ok (), s')) :
    pre s.view ∧ s'.view = eff s.view := by
  by_cases hpre : pre s.view
  · obtain ⟨s₁, hrun₁, hview⟩ := h s hpre
    obtain ⟨-, rfl⟩ := Prod.mk.inj (hrun.symm.trans hrun₁)
    exact ⟨hpre, hview⟩
  · obtain ⟨e, s₁, hrun₁⟩ := hneeds s hpre
    exact absurd (congrArg Prod.fst (hrun.symm.trans hrun₁)) nofun

/-! ### Actions -/

theorem mem_users {s : Meta} : name ∈ s.view.users ↔ ∃ g, s.users.lookup name = some g := Option.isSome_iff_exists

theorem mem_roles {s : Meta} : name ∈ s.view.roles ↔ ∃ r, s.roles.lookup name = some r := Option.isSome_iff_exists

theorem run_postUser {s : Meta} {g : Grants} (h : s.users.lookup name = some g) (act : Grants → Grants) :
    (postUser name act).run s = (.ok (), s.setUser name (act g)) := by
  apply Tx.run_update_ok
  rw [h]

theorem run_postRole {s : Meta} {r : Role} (h : s.roles.lookup name = some r) (act : Role → Role) :
    (postRole name act).run s = (.ok (), s.setRole name (act r)) := by
  apply Tx.run_update_ok
  rw [h]

/-- An action on the permissions, unless there are none to post. -/
theorem run_postUser_unless {s : Meta} {g : Grants} (h : s.users.lookup name = some g) (perms : Permissions)
    (act : Grants → Grants) (hact : (∀ db p, ¬ perms.Has db p) → ∀ x, x ∈ act g ↔ x ∈ g) :
    ∃ s' g', (postUnlessEmpty perms (postUser name act)).run s = (.ok (), s') ∧
      s'.users.lookup name = some g' ∧ (∀ x, x ∈ g' ↔ x ∈ act g) ∧ s'.view = s.view.setUserHas name fun db p => (db, p) ∈ g' := by
  have hmem : name ∈ s.view.users := mem_users.mpr ⟨g, h⟩
  unfold postUnlessEmpty
  split_ifs with hlen
  · refine ⟨_, act g, run_postUser h act, ?_, fun _ => Iff.rfl, view_setUser hmem _⟩
    rw [lookup_setUser, if_pos rfl]
  · exact ⟨s, g, rfl, h, fun x => (hact (fun _ _ => not_has_of_length hlen) x).symm, (setUserHas_self h).symm⟩

theorem run_postRole_unless {s : Meta} {r : Role} (h : s.roles.lookup name = some r) (perms : Permissions)
    (act : Grants → Grants) (hact : (∀ db p, ¬ perms.Has db p) → ∀ x, x ∈ act r.permissions ↔ x ∈ r.permissions) :
    ∃ s' g', (postUnlessEmpty perms (postRole name fun r => { r with permissions := act r.permissions })).run s = (.ok (), s') ∧
      s'.roles.lookup name = some { r with permissions := g' } ∧ (∀ x, x ∈ g' ↔ x ∈ act r.permissions) ∧
      s'.view = s.view.setRoleHas name fun db p => (db, p) ∈ g' := by
  unfold postUnlessEmpty
  split_ifs with hlen
  · refine ⟨_, act r.permissions, run_postRole h _, ?_, fun _ => Iff.rfl, view_setRole_permissions h _⟩
    rw [lookup_setRole, if_pos rfl]
  · exact ⟨s, r.permissions, rfl, h, fun x => (hact (fun _ _ => not_has_of_length hlen) x).symm, (setRoleHas_self h).symm⟩

/-- Both differences posted, the permissions are those wanted. -/
theorem mem_grant_withhold {haves wants : Permissions} {g g₁ g₂ : Grants} (hhaves : ∀ {db p}, haves.Has db p ↔ (db, p) ∈ g)
    (h₁ : ∀ x, x ∈ g₁ ↔ x ∈ withhold (permissionsDifference wants haves).1 g)
    (h₂ : ∀ x, x ∈ g₂ ↔ x ∈ grant (permissionsDifference wants haves).2 g₁) (db p : String) :
    (db, p) ∈ g₂ ↔ wants.Has db p := by
  rw [h₂, grant, List.mem_append, h₁, withhold, List.mem_filter, decide_eq_true_eq, mem_pairs, mem_pairs,
    (has_permissionsDifference wants haves db p).1, (has_permissionsDifference wants haves db p).2, hhaves]
  tauto

variable (P : Printer)

theorem setUserPerms_does (name : String) (perms : Permissions) :
    Does (setUserPerms P name perms) (fun v => name ∈ v.users) fun v => v.setUserHas name perms.Has := by
  intro s hs
  obtain ⟨g, hg⟩ := mem_users.mp hs
  have hread : (user P name).run s = (.ok (P.print g), s) := by
    rw [user, Tx.run_view, hg]
  obtain ⟨s₁, g₁, hrun₁, hg₁, hmem₁, hview₁⟩ := run_postUser_unless hg (permissionsDifference perms (P.print g)).1
    (withhold (permissionsDifference perms (P.print g)).1) (fun hnone x => by
      rw [withhold, List.mem_filter, decide_eq_true_eq, mem_pairs]
      exact and_iff_left (hnone _ _))
  obtain ⟨s₂, g₂, hrun₂, -, hmem₂, hview₂⟩ := run_postUser_unless hg₁ (permissionsDifference perms (P.print g)).2
    (grant (permissionsDifference perms (P.print g)).2) (fun hnone x => by
      rw [grant, List.mem_append, mem_pairs]
      exact or_iff_left (hnone _ _))
  refine ⟨s₂, (Tx.run_bind_ok hread).trans ((Tx.run_bind_ok hrun₁).trans hrun₂), ?_⟩
  have hhas : (fun db p => (db, p) ∈ g₂) = perms.Has := by
    funext db p
    exact propext (mem_grant_withhold P.has_print hmem₁ hmem₂ db p)
  rw [hview₂, hview₁, hhas, View.setUserHas_setUserHas]

theorem setUserPerms_needs (name : String) (perms : Permissions) : Needs (setUserPerms P name perms) fun v => name ∈ v.users := by
  intro s hs
  have hnone : s.users.lookup name = none := Option.not_isSome_iff_eq_none.mp hs
  have hread : (user P name).run s = (.error .noUserFound, s) := by
    rw [user, Tx.run_view, hnone]
  exact ⟨_, s, Tx.run_bind_error hread⟩

theorem setRolePerms_does (name : String) (perms : Permissions) :
    Does (setRolePerms P name perms) (fun v => name ∈ v.roles) fun v => v.setRoleHas name perms.Has := by
  intro s hs
  obtain ⟨r, hr⟩ := mem_roles.mp hs
  have hread : (role P name).run s = (.ok (P.print r.permissions, r.users), s) := by
    rw [role, Tx.run_view, hr]
  obtain ⟨s₁, g₁, hrun₁, hr₁, hmem₁, hview₁⟩ := run_postRole_unless hr (permissionsDifference perms (P.print r.permissions)).1
    (withhold (permissionsDifference perms (P.print r.permissions)).1) (fun hnone x => by
      rw [withhold, List.mem_filter, decide_eq_true_eq, mem_pairs]
      exact and_iff_left (hnone _ _))
  obtain ⟨s₂, g₂, hrun₂, -, hmem₂, hview₂⟩ := run_postRole_unless hr₁ (permissionsDifference perms (P.print r.permissions)).2
    (grant (permissionsDifference perms (P.print r.permissions)).2) (fun hnone x => by
      rw [grant, List.mem_append, mem_pairs]
      exact or_iff_left (hnone _ _))
  refine ⟨s₂, (Tx.run_bind_ok hread).trans ((Tx.run_bind_ok hrun₁).trans hrun₂), ?_⟩
  have hhas : (fun db p => (db, p) ∈ g₂) = perms.Has := by
    funext db p
    exact propext (mem_grant_withhold P.has_print hmem₁ hmem₂ db p)
  rw [hview₂, hview₁, hhas, View.setRoleHas_setRoleHas]

theorem setRolePerms_needs (name : String) (perms : Permissions) : Needs (setRolePerms P name perms) fun v => name ∈ v.roles := by
  intro s hs
  have hnone : s.roles.lookup name = none := Option.not_isSome_iff_eq_none.mp hs
  have hread : (role P name).run s = (.error .noRoleFound, s) := by
    rw [role, Tx.run_view, hnone]
  exact ⟨_, s, Tx.run_bind_error hread⟩

/-! ### Users of a role -/

theorem postRole_needs (act : Role → Role) : Needs (postRole name act) fun v => name ∈ v.roles := by
  intro s hs
  have hnone : s.roles.lookup name = none := Option.not_isSome_iff_eq_none.mp hs
  refine ⟨.noRoleFound, s, Tx.run_update_error ?_⟩
  rw [hnone]

theorem addRoleUsers_does (name : String) (users : List String) :
    Does (addRoleUsers name users) (fun v => name ∈ v.roles) fun v => v.join (· = name) (· ∈ users) := by
  intro s hs
  obtain ⟨r, hr⟩ := mem_roles.mp hs
  unfold addRoleUsers
  split_ifs with hlen
  · refine ⟨s, rfl, ?_⟩
    have hnil : users = [] := List.eq_nil_of_length_eq_zero hlen
    simp [View.join, hnil]
  · refine ⟨_, run_postRole hr _, (view_setRole_users hr _).trans ?_⟩
    ext n u <;> try rfl
    by_cases hn : n = name
    · subst hn
      simp [View.join, View.setMembers, Meta.view, hr]
    · simp [View.join, View.setMembers, hn]

theorem removeRoleUsers_does (name : String) (users : List String) :
    Does (removeRoleUsers name users) (fun v => name ∈ v.roles) fun v => v.leave (· = name) (· ∈ users) := by
  intro s hs
  obtain ⟨r, hr⟩ := mem_roles.mp hs
  unfold removeRoleUsers
  split_ifs with hlen
  · refine ⟨s, rfl, ?_⟩
    have hnil : users = [] := List.eq_nil_of_length_eq_zero hlen
    simp [View.leave, hnil]
  · refine ⟨_, run_postRole hr _, (view_setRole_users hr _).trans ?_⟩
    ext n u <;> try rfl
    by_cases hn : n = name
    · subst hn
      simp [View.leave, View.setMembers, Meta.view, hr]
    · simp [View.leave, View.setMembers, hn]

theorem addRoleUsers_needs (name u : String) : Needs (addRoleUsers name [u]) fun v => name ∈ v.roles := postRole_needs _

theorem removeRoleUsers_needs (name u : String) : Needs (removeRoleUsers name [u]) fun v => name ∈ v.roles := postRole_needs _

theorem setRoleUsers_does (name : String) (users : List String) :
    Does (setRoleUsers P name users) (fun v => name ∈ v.roles) fun v => v.setMembers name (· ∈ users) := by
  intro s hs
  obtain ⟨r, hr⟩ := mem_roles.mp hs
  have hread : (role P name).run s = (.ok (P.print r.permissions, r.users), s) := by
    rw [role, Tx.run_view, hr]
  have hposts := (removeRoleUsers_does name (difference users r.users).1).bind (addRoleUsers_does name (difference users r.users).2)
  obtain ⟨s', hrun, hview⟩ := hposts s ⟨hs, hs⟩
  refine ⟨s', (Tx.run_bind_ok hread).trans hrun, hview.trans ?_⟩
  ext n u <;> try rfl
  by_cases hn : n = name
  · subst hn
    simp [View.join, View.leave, View.setMembers, Meta.view, hr, mem_difference.1, mem_difference.2]
    tauto
  · simp [View.join, View.leave, View.setMembers, hn]

theorem setRoleUsers_needs (name : String) (users : List String) : Needs (setRoleUsers P name users) fun v => name ∈ v.roles := by
  intro s hs
  have hnone : s.roles.lookup name = none := Option.not_isSome_iff_eq_none.mp hs
  have hread : (role P name).run s = (.error .noRoleFound, s) := by
    rw [role, Tx.run_view, hnone]
  exact ⟨_, s, Tx.run_bind_error hread⟩

end Programs

/-! ### Requests -/

/-- What a list of permissions asks for, all entries for one database taken together. -/
def Requested (perms : List Permission) (db p : String) : Prop := ∃ e ∈ perms, keyOf e = db ∧ p ∈ e.allowed

/-- Of the entries for one database the last allows what any of them allows. -/
def LastAllowsAll (perms : List Permission) : Prop :=
  ∀ e ∈ perms, ∀ p ∈ e.allowed, ∀ last ∈ (perms.filter (keyOf · = keyOf e)).getLast?, p ∈ last.allowed

/-- The last entry for a database counts. -/
theorem has_toEnterprise (perms : List Permission) (db p : String) :
    (toEnterprise perms).Has db p ↔ ∃ last ∈ (perms.filter (keyOf · = db)).getLast?, p ∈ last.allowed := by
  unfold toEnterprise
  induction perms using List.reverseRecOn with
  | nil => simp [not_has_empty]
  | append_singleton perms e ih =>
    rw [List.foldl_append, List.foldl_cons, List.foldl_nil, has_set, List.filter_append]
    by_cases hdb : db = keyOf e
    · subst hdb
      simp
    · have hne : ¬ keyOf e = db := fun h => hdb h.symm
      rw [if_neg hdb, ih]
      simp [hne]

theorem mem_of_mem_last {perms : List Permission} {db : String} {e : Permission}
    (h : e ∈ (perms.filter (keyOf · = db)).getLast?) : e ∈ perms ∧ keyOf e = db := by
  have hmem := List.mem_of_getLast? h
  simpa using hmem

theorem toEnterprise_eq_requested_iff (perms : List Permission) : (toEnterprise perms).Has = Requested perms ↔ LastAllowsAll perms := by
  constructor
  · intro heq e he p hp last hlast
    have hreq : Requested perms (keyOf e) p := ⟨e, he, rfl, hp⟩
    rw [← heq, has_toEnterprise] at hreq
    obtain ⟨last', hlast', hp'⟩ := hreq
    rwa [Option.mem_unique hlast hlast']
  · intro hall
    funext db p
    apply propext
    rw [has_toEnterprise]
    constructor
    · rintro ⟨last, hlast, hp⟩
      obtain ⟨hmem, hkey⟩ := mem_of_mem_last hlast
      exact ⟨last, hmem, hkey, hp⟩
    · rintro ⟨e, he, rfl, hp⟩
      have hne : perms.filter (keyOf · = keyOf e) ≠ [] := List.ne_nil_of_mem (List.mem_filter.mpr ⟨he, by simp⟩)
      refine ⟨_, List.getLast?_eq_some_getLast hne, hall e he p hp _ (List.getLast?_eq_some_getLast hne)⟩

/-- A part of a request that changes the sets if it is there. -/
def View.given {α : Type} (v : View) (part : Option α) (f : View → α → View) : View :=
  match part with
  | some a => f v a
  | none => v

theorem View.given_some {α : Type} (v : View) (a : α) (f : View → α → View) : v.given (some a) f = f v a := rfl

/-- Members leave the permissions of roles alone. -/
theorem View.roleHas_given_setMembers (v : View) (users : Option (List String)) (name : String) :
    (v.given users fun v users => v.setMembers name (· ∈ users)).roleHas = v.roleHas := by
  cases users <;> rfl

/-- The sets a user's update asks for. -/
def UserStore.target (u : User) (v : View) : View :=
  (v.given u.roles fun v want => v.setRolesOf u.name (· ∈ want)).given u.permissions fun v perms =>
    v.setUserHas u.name (Requested perms)

/-- The sets a role's update asks for. -/
def RolesStore.target (r : RoleRequest) (v : View) : View :=
  (v.given r.permissions fun v perms => v.setRoleHas r.name (Requested perms)).given r.users fun v users =>
    v.setMembers r.name (· ∈ users)

/-- The sets a new role asks for: what is missing is empty. -/
def RolesStore.targetOfAdd (r : RoleRequest) (v : View) : View :=
  ((v.addRole r.name).setRoleHas r.name (Requested (r.permissions.getD []))).setMembers r.name (· ∈ r.users.getD [])

/-! ### Updates -/

section Updates

variable {p : Client Unit} {pre : View → Prop} {eff : View → View} {name : String}

theorem Does.ifGiven {α : Type} {f : α → Client Unit} {pre : View → Prop} {eff : View → α → View}
    (h : ∀ a, Does (f a) pre (eff · a)) (part : Option α) :
    Does (ifGiven part f) (fun v => part.isSome → pre v) (·.given part eff) := by
  cases part with
  | none => exact Does.pure.congr (fun _ _ => trivial) fun _ _ => rfl
  | some a => exact (h a).congr (fun _ hpre => hpre rfl) fun _ _ => rfl

theorem Needs.ifGiven {α : Type} {f : α → Client Unit} {pre : View → Prop} (h : ∀ a, Needs (f a) pre) (part : Option α) :
    Needs (ifGiven part f) fun v => part.isSome → pre v := by
  intro s hs
  cases part with
  | none => exact absurd nofun hs
  | some a => exact h a s fun hpre => hs fun _ => hpre

/-- An action on each of some roles. -/
theorem Does.forEach {f : String → Client Unit} {eff : String → View → View} (h : ∀ n, Does (f n) (fun v => n ∈ v.roles) (eff n))
    (hroles : ∀ n v, (eff n v).roles = v.roles) : ∀ names : List String,
    Does (Tx.forEach names f) (fun v => ∀ n ∈ names, n ∈ v.roles) fun v => names.foldl (fun v n => eff n v) v
  | [] => Does.pure.congr (fun _ _ => trivial) fun _ _ => rfl
  | name :: names => ((h name).bind (Does.forEach h hroles names)).congr
      (fun v hv => ⟨hv name List.mem_cons_self, fun n hn => by
        rw [hroles]
        exact hv n (List.mem_cons_of_mem _ hn)⟩) fun _ _ => rfl

theorem Does.forEach_needs {f : String → Client Unit} {eff : String → View → View}
    (h : ∀ n, Does (f n) (fun v => n ∈ v.roles) (eff n)) (hneeds : ∀ n, Needs (f n) fun v => n ∈ v.roles)
    (hroles : ∀ n v, (eff n v).roles = v.roles) : ∀ names : List String,
    Needs (Tx.forEach names f) fun v => ∀ n ∈ names, n ∈ v.roles
  | [] => fun _ hs => absurd nofun hs
  | name :: names => by
    intro s hs
    refine (h name).bind_needs (hneeds name) (Does.forEach_needs h hneeds hroles names) s ?_
    rintro ⟨hname, hnames⟩
    apply hs
    intro n hn
    rw [hroles] at hnames
    rcases List.mem_cons.mp hn with rfl | hn
    · exact hname
    · exact hnames n hn

theorem foldl_join (u : String) : ∀ (names : List String) (v : View),
    names.foldl (fun v n => v.join (· = n) (· ∈ [u])) v = v.join (· ∈ names) (· = u)
  | [], v => by simp [View.join]
  | name :: names, v => by
    rw [List.foldl_cons, foldl_join u names]
    ext r x <;> try rfl
    simp [View.join, or_and_right, or_assoc]

theorem foldl_leave (u : String) : ∀ (names : List String) (v : View),
    names.foldl (fun v n => v.leave (· = n) (· ∈ [u])) v = v.leave (· ∈ names) (· = u)
  | [], v => by simp [View.leave]
  | name :: names, v => by
    rw [List.foldl_cons, foldl_leave u names]
    ext r x <;> try rfl
    simp only [View.leave, List.mem_cons]
    simp
    tauto

variable {P : Printer} {s s' : Meta} {replies : ℕ → Reply}

/-- The roles of a user as they are read. -/
theorem mem_userRoles (s : Meta) (u r : String) :
    r ∈ (s.roles.entries.flatMap fun r => (r.2.users.filter (· = u)).map fun _ => r.1) ↔ s.view.members r u := by
  simp only [List.mem_flatMap, List.mem_map, List.mem_filter, decide_eq_true_eq, Meta.view]
  constructor
  · rintro ⟨⟨n, role⟩, hentry, _, ⟨hu, rfl⟩, rfl⟩
    exact ⟨role, AList.mem_lookup_iff.mpr hentry, hu⟩
  · rintro ⟨role, hlookup, hu⟩
    exact ⟨⟨r, role⟩, AList.mem_lookup_iff.mp hlookup, u, ⟨hu, rfl⟩, rfl⟩

theorem setUserPerms_stops (name : String) (perms : Permissions) : Tx.StopsOnFailure (setUserPerms P name perms) :=
  .bind .view fun _ => .bind (.ite .update .pure) fun _ => .ite .update .pure

theorem setRolePerms_stops (name : String) (perms : Permissions) : Tx.StopsOnFailure (setRolePerms P name perms) :=
  .bind .view fun _ => .bind (.ite .update .pure) fun _ => .ite .update .pure

theorem addRoleUsers_stops (name : String) (users : List String) : Tx.StopsOnFailure (addRoleUsers name users) :=
  .ite .pure .update

theorem removeRoleUsers_stops (name : String) (users : List String) : Tx.StopsOnFailure (removeRoleUsers name users) :=
  .ite .pure .update

theorem setRoleUsers_stops (name : String) (users : List String) : Tx.StopsOnFailure (setRoleUsers P name users) :=
  .bind .view fun _ => .bind (removeRoleUsers_stops _ _) fun _ => addRoleUsers_stops _ _

theorem ifGiven_stops {α : Type} {part : Option α} {f : α → Client Unit} (h : ∀ a, Tx.StopsOnFailure (f a)) :
    Tx.StopsOnFailure (ifGiven part f) := by
  cases part with
  | none => exact .pure
  | some a => exact h a

/-- A program that ends with a value has done what it does, whatever the replies. -/
theorem Does.of_through (h : Does p pre eff) (hneeds : Needs p pre) (hstops : Tx.StopsOnFailure p)
    (hrun : p.through replies s = (.ok (), s')) : s'.view = eff s.view :=
  (h.of_ok hneeds (hstops.run_eq hrun)).2

/-! ### A user's update -/

/-- The permissions of a request, set. -/
theorem permissions_does (u : User) :
    Does (ifGiven u.permissions fun perms => setUserPerms P u.name (toEnterprise perms))
      (fun v => u.permissions.isSome → u.name ∈ v.users)
      (·.given u.permissions fun v perms => v.setUserHas u.name (toEnterprise perms).Has) :=
  Does.ifGiven (fun perms => setUserPerms_does P u.name (toEnterprise perms)) u.permissions

theorem permissions_needs (u : User) :
    Needs (ifGiven u.permissions fun perms => setUserPerms P u.name (toEnterprise perms))
      fun v => u.permissions.isSome → u.name ∈ v.users :=
  Needs.ifGiven (fun perms => setUserPerms_needs P u.name (toEnterprise perms)) u.permissions

/-- The roles to be added and removed lead from those there are to those wanted. -/
theorem leave_join_difference {v : View} {want have_ : List String} {u : String} (h : ∀ r, r ∈ have_ ↔ v.members r u) :
    (v.join (· ∈ (difference want have_).2) (· = u)).leave (· ∈ (difference want have_).1) (· = u) =
      v.setRolesOf u (· ∈ want) := by
  ext r x <;> try rfl
  simp only [View.leave, View.join, View.setRolesOf, mem_difference.1, mem_difference.2, h]
  by_cases hx : x = u
  · subst hx
    rw [if_pos rfl]
    tauto
  · rw [if_neg hx]
    simp [hx]

/-- What an update does that ends with a value: nothing when the roles were to be read and could not. -/
theorem UserStore.update_view {u : User} (hpass : u.passwd = "") (hrun : (UserStore.update P u).through replies s = (.ok (), s')) :
    s'.view = if u.roles ≠ none ∧ replies 0 ≠ .answered then s.view
      else (s.view.given u.roles fun v want => v.setRolesOf u.name (· ∈ want)).given u.permissions fun v perms =>
        v.setUserHas u.name (toEnterprise perms).Has := by
  unfold UserStore.update at hrun
  rw [if_neg (not_not.mpr hpass)] at hrun
  have hperms : Tx.StopsOnFailure (ifGiven u.permissions fun perms => setUserPerms P u.name (toEnterprise perms)) :=
    ifGiven_stops fun _ => setUserPerms_stops _ _
  cases hroles : u.roles with
  | none =>
    rw [hroles] at hrun
    rw [if_neg fun h => h.1 rfl]
    exact (permissions_does u).of_through (permissions_needs u) hperms hrun
  | some want =>
    rw [hroles] at hrun
    dsimp only at hrun
    rw [userRoles, Tx.through_attempt_view_bind] at hrun
    by_cases hreply : replies 0 = .answered
    · rw [if_neg fun h => h.2 hreply]
      rw [hreply] at hrun
      dsimp only at hrun
      have hhave := mem_userRoles s u.name
      generalize (s.roles.entries.flatMap fun r => (r.2.users.filter (· = u.name)).map fun _ => r.1) = have_ at hrun hhave
      have hadd := Does.forEach (fun n => addRoleUsers_does n [u.name]) (fun _ _ => rfl) (difference want have_).2
      have hrevoke := Does.forEach (fun n => removeRoleUsers_does n [u.name]) (fun _ _ => rfl) (difference want have_).1
      have hadd' := Does.forEach_needs (fun n => addRoleUsers_does n [u.name]) (fun n => addRoleUsers_needs n u.name)
        (fun _ _ => rfl) (difference want have_).2
      have hrevoke' := Does.forEach_needs (fun n => removeRoleUsers_does n [u.name]) (fun n => removeRoleUsers_needs n u.name)
        (fun _ _ => rfl) (difference want have_).1
      have hview := (hadd.bind (hrevoke.bind (permissions_does u))).of_through
        (hadd.bind_needs hadd' (hrevoke.bind_needs hrevoke' (permissions_needs u)))
        (.bind (.forEach (fun _ => addRoleUsers_stops _ _) _) fun _ =>
          .bind (.forEach (fun _ => removeRoleUsers_stops _ _) _) fun _ => hperms) hrun
      rw [hview]
      simp only [Function.comp_apply, foldl_join, foldl_leave, leave_join_difference hhave]
      rfl
    · rw [if_pos ⟨nofun, hreply⟩]
      cases hlost : replies 0 with
      | answered => exact absurd hlost hreply
      | refused =>
        rw [hlost] at hrun
        exact congrArg Meta.view (Prod.mk.inj hrun).2.symm
      | lost =>
        rw [hlost] at hrun
        exact congrArg Meta.view (Prod.mk.inj hrun).2.symm

/-! ### The updates of a role -/

theorem RolesStore.update_view {r : RoleRequest} (hrun : (RolesStore.update P r).through replies s = (.ok (), s')) :
    s'.view = (s.view.given r.permissions fun v perms => v.setRoleHas r.name (toEnterprise perms).Has).given r.users
      fun v users => v.setMembers r.name (· ∈ users) := by
  have hperms := Does.ifGiven (fun perms => setRolePerms_does P r.name (toEnterprise perms)) r.permissions
  have hperms' := Needs.ifGiven (fun perms => setRolePerms_needs P r.name (toEnterprise perms)) r.permissions
  have husers := Does.ifGiven (setRoleUsers_does P r.name) r.users
  have husers' := Needs.ifGiven (setRoleUsers_needs P r.name) r.users
  exact (hperms.bind husers).of_through (hperms.bind_needs hperms' husers')
    (.bind (ifGiven_stops fun _ => setRolePerms_stops _ _) fun _ => ifGiven_stops fun _ => setRoleUsers_stops _ _) hrun

theorem createRole_does (name : String) : Does (createRole name) (fun v => name ∉ v.roles)
    fun v => ((v.addRole name).setRoleHas name fun _ _ => False).setMembers name fun _ => False := by
  intro s hs
  have hnone : s.roles.lookup name = none := Option.not_isSome_iff_eq_none.mp hs
  have husers : (s.setRole name ⟨[], []⟩).users = s.users := rfl
  refine ⟨s.setRole name ⟨[], []⟩, Tx.run_update_ok (by rw [hnone]), ?_⟩
  ext n
  · simp [Meta.view, husers, View.addRole, View.setRoleHas, View.setMembers]
  · by_cases hn : n = name <;> simp [Meta.view, lookup_setRole, View.addRole, View.setRoleHas, View.setMembers, hn]
  · simp [Meta.view, husers, View.addRole, View.setRoleHas, View.setMembers]
  · by_cases hn : n = name <;> simp [Meta.view, lookup_setRole, View.addRole, View.setRoleHas, View.setMembers, hn]
  · by_cases hn : n = name <;> simp [Meta.view, lookup_setRole, View.addRole, View.setRoleHas, View.setMembers, hn]

theorem createRole_needs (name : String) : Needs (createRole name) fun v => name ∉ v.roles := by
  intro s hs
  obtain ⟨r, hr⟩ := mem_roles.mp (not_not.mp hs)
  refine ⟨.roleExists, s, Tx.run_update_error ?_⟩
  rw [hr]

theorem RolesStore.add_view {r r' : RoleRequest} (hrun : (RolesStore.add P r).through replies s = (.ok r', s')) :
    s'.view = ((s.view.addRole r.name).setRoleHas r.name (toEnterprise (r.permissions.getD [])).Has).setMembers r.name
      (· ∈ r.users.getD []) := by
  have hstops : Tx.StopsOnFailure (RolesStore.add P r) :=
    .bind .update fun _ => .bind (setRolePerms_stops _ _) fun _ => .bind (setRoleUsers_stops _ _) fun _ => .pure
  obtain ⟨_, s₁, hrun₁, hrest₁⟩ := Tx.of_run_bind_ok (hstops.run_eq hrun)
  obtain ⟨_, s₂, hrun₂, hrest₂⟩ := Tx.of_run_bind_ok hrest₁
  obtain ⟨_, s₃, hrun₃, hrest₃⟩ := Tx.of_run_bind_ok hrest₂
  obtain ⟨-, hview₁⟩ := (createRole_does r.name).of_ok (createRole_needs r.name) hrun₁
  obtain ⟨-, hview₂⟩ := (setRolePerms_does P r.name _).of_ok (setRolePerms_needs P r.name _) hrun₂
  obtain ⟨-, hview₃⟩ := (setRoleUsers_does P r.name _).of_ok (setRoleUsers_needs P r.name _) hrun₃
  have hs' : s' = s₃ := (Prod.mk.inj hrest₃).2.symm
  rw [hs', hview₃, hview₂, hview₁]
  ext n u <;> try rfl
  · by_cases hn : n = r.name <;> simp [View.setRoleHas, View.setMembers, hn]
  · by_cases hn : n = r.name <;> simp [View.setRoleHas, View.setMembers, hn]

/-! ### What is asked for -/

/-- Two sets of permissions for one user or role make the same state only if they are the same. -/
theorem setUserHas_inj {v : View} {name : String} {H H' : String → String → Prop}
    (h : v.setUserHas name H = v.setUserHas name H') : H = H' := by
  have hname := congrFun (congrArg View.userHas h) name
  simpa [View.setUserHas] using hname

theorem setRoleHas_inj {v : View} {name : String} {H H' : String → String → Prop}
    (h : (v.setRoleHas name H).roleHas = (v.setRoleHas name H').roleHas) : H = H' := by
  have hname := congrFun h name
  simpa [View.setRoleHas] using hname

/-- An update that returns no error has reached what was asked for, and nothing else, if and only if the roles were
read or there is nothing to change, and the last of the entries for a database allows all of them allow. -/
theorem updates_reach_iff (P : Printer) (replies : ℕ → Reply) (s s' : Meta) :
    (∀ u : User, u.passwd = "" → (UserStore.update P u).through replies s = (.ok (), s') →
      (s'.view = UserStore.target u s.view ↔
        (u.roles ≠ none ∧ replies 0 ≠ .answered → s.view = UserStore.target u s.view) ∧
        (¬ (u.roles ≠ none ∧ replies 0 ≠ .answered) → ∀ perms ∈ u.permissions, LastAllowsAll perms))) ∧
    (∀ r : RoleRequest, (RolesStore.update P r).through replies s = (.ok (), s') →
      (s'.view = RolesStore.target r s.view ↔ ∀ perms ∈ r.permissions, LastAllowsAll perms)) ∧
    ∀ r r' : RoleRequest, (RolesStore.add P r).through replies s = (.ok r', s') →
      (s'.view = RolesStore.targetOfAdd r s.view ↔ LastAllowsAll (r.permissions.getD [])) := by
  refine ⟨?_, ?_, ?_⟩
  · intro u hpass hrun
    rw [UserStore.update_view hpass hrun]
    by_cases hunread : u.roles ≠ none ∧ replies 0 ≠ .answered
    · rw [if_pos hunread]
      exact ⟨fun h => ⟨fun _ => h, fun hnot => absurd hunread hnot⟩, fun h => h.1 hunread⟩
    · rw [if_neg hunread]
      unfold UserStore.target
      cases hperms : u.permissions with
      | none => exact iff_of_true rfl ⟨fun h => absurd h hunread, fun _ _ h => nomatch h⟩
      | some perms =>
        have hiff := toEnterprise_eq_requested_iff perms
        constructor
        · intro h
          refine ⟨fun h => absurd h hunread, fun _ perms' hmem => ?_⟩
          rw [← Option.some.inj hmem]
          exact hiff.mp (setUserHas_inj h)
        · intro h
          simp only [View.given_some, hiff.mpr (h.2 hunread perms rfl)]
  · intro r hrun
    rw [RolesStore.update_view hrun]
    unfold RolesStore.target
    cases hperms : r.permissions with
    | none => exact iff_of_true rfl fun _ h => nomatch h
    | some perms =>
      have hiff := toEnterprise_eq_requested_iff perms
      constructor
      · intro h perms' hmem
        rw [← Option.some.inj hmem]
        have hhas := congrArg View.roleHas h
        simp only [View.given_some, View.roleHas_given_setMembers] at hhas
        exact hiff.mp (setRoleHas_inj hhas)
      · intro h
        simp only [View.given_some, hiff.mpr (h perms rfl)]
  · intro r r' hrun
    rw [RolesStore.add_view hrun]
    unfold RolesStore.targetOfAdd
    have hiff := toEnterprise_eq_requested_iff (r.permissions.getD [])
    constructor
    · intro h
      have hhas := congrArg View.roleHas h
      exact hiff.mp (setRoleHas_inj hhas)
    · intro h
      rw [hiff.mpr h]

/-- A map that lists each permission under its database. -/
def plainPrinter : Printer where
  print g := ⟨g.map Prod.fst, fun db => (g.filter (·.1 = db)).map Prod.snd⟩
  has_print {g db p} := by
    simp only [Has, List.mem_map, List.mem_filter, decide_eq_true_eq]
    constructor
    · rintro ⟨-, ⟨db', p'⟩, ⟨hmem, rfl⟩, rfl⟩
      exact hmem
    · intro hmem
      exact ⟨⟨(db, p), hmem, rfl⟩, (db, p), ⟨hmem, rfl⟩, rfl⟩

/-- One user without permissions, in no role, and one role. -/
def newcomer : Meta where
  users := AList.insert "jo" [] ∅
  roles := AList.insert "staff" ⟨[], []⟩ ∅

def readAll : Permission := ⟨"all", "", ["ReadData"]⟩

theorem lastAllowsAll_readAll : LastAllowsAll [readAll] := by
  intro e he p hp last hlast
  obtain rfl := List.mem_singleton.mp he
  obtain rfl : last = readAll := by simpa using (mem_of_mem_last hlast).1
  exact hp

def hired : User := ⟨"jo", "", some ["staff"], some [readAll]⟩

def staffReads : RoleRequest := ⟨"staff", some [readAll], none⟩

def owners : RoleRequest := ⟨"owners", some [readAll], some ["jo"]⟩

/-- With every request answered the user is in the role and may read, the role may, and a second role is made. -/
theorem updates_reach_newcomer :
    ((UserStore.update plainPrinter hired).through (fun _ => .answered) newcomer).2.view = UserStore.target hired newcomer.view ∧
    ((RolesStore.update plainPrinter staffReads).through (fun _ => .answered) newcomer).2.view =
      RolesStore.target staffReads newcomer.view ∧
    ((RolesStore.add plainPrinter owners).through (fun _ => .answered) newcomer).2.view =
      RolesStore.targetOfAdd owners newcomer.view := by
  refine ⟨?_, ?_, ?_⟩
  · refine ((updates_reach_iff plainPrinter (fun _ => .answered) newcomer _).1 _ rfl (Prod.ext rfl rfl)).mpr
      ⟨fun h => absurd rfl h.2, fun _ perms hperms => ?_⟩
    rw [← Option.some.inj hperms]
    exact lastAllowsAll_readAll
  · refine ((updates_reach_iff plainPrinter (fun _ => .answered) newcomer _).2.1 _ (Prod.ext rfl rfl)).mpr fun perms hperms => ?_
    rw [← Option.some.inj hperms]
    exact lastAllowsAll_readAll
  · exact ((updates_reach_iff plainPrinter (fun _ => .answered) newcomer _).2.2 _ owners (Prod.ext rfl rfl)).mpr
      lastAllowsAll_readAll

/-- Two entries for one database. -/
def staffReadsWrites : RoleRequest := ⟨"staff", some [readAll, { readAll with allowed := ["WriteData"] }], none⟩

/-- The roles cannot be read: no error, and the user is in no role. Of two entries for a database the first is lost. -/
theorem updates_miss_newcomer :
    (∃ s', (UserStore.update plainPrinter hired).through (fun _ => .refused) newcomer = (.ok (), s') ∧
      s'.view ≠ UserStore.target hired newcomer.view) ∧
    ∃ s', (RolesStore.update plainPrinter staffReadsWrites).through (fun _ => .answered) newcomer = (.ok (), s') ∧
      s'.view ≠ RolesStore.target staffReadsWrites newcomer.view := by
  refine ⟨⟨newcomer, rfl, fun h => ?_⟩, ⟨_, Prod.ext rfl rfl, fun h => ?_⟩⟩
  · have hmember : (UserStore.target hired newcomer.view).members "staff" "jo" := by
      simp [UserStore.target, hired, View.given, View.setRolesOf, View.setUserHas]
    rw [← h] at hmember
    obtain ⟨r, hr, hjo⟩ := hmember
    obtain rfl := Option.some.inj hr
    cases hjo
  · have hhas : (RolesStore.target staffReadsWrites newcomer.view).roleHas "staff" "" "ReadData" := by
      simp only [RolesStore.target, staffReadsWrites, View.given, View.setRoleHas, if_true]
      exact ⟨readAll, List.mem_cons_self, rfl, List.mem_cons_self⟩
    rw [← h] at hhas
    obtain ⟨r, hr, hread⟩ := hhas
    obtain rfl := Option.some.inj hr
    revert hread
    decide

end Updates

end Enterprise
end Chronograf
