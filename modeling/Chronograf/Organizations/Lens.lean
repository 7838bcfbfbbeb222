/-
# The users facade is a lens on one organization's roles

Over the bolt store of users, `Add`, `Update` and `Delete` of an
organization's facade set the roles that one user has in the organization and
nothing else about anybody's roles; `Get`, `All` and `Num` show the users with
a role there, each with these roles only.

Key definitions: `User.inOrganization`, `RolesSet`.
Key theorems: `add_cases`, `update_cases`, `delete_cases` (what a call can do),
`users_facade_lens`.
-/
import Chronograf.Bolt.Users
import Chronograf.Organizations.Users

namespace Chronograf

/-! ### Roles inside and outside an organization -/

namespace User

variable {u usr : User} {org : String} {rs : List Role}

/-- The user as the facade of the organization shows it. -/
def inOrganization (u : User) (org : String) : User := { u with roles := u.rolesIn org }

theorem length_rolesIn_add (u : User) (org : String) :
    (u.rolesIn org).length + (u.rolesOutside org).length = u.roles.length := by
  unfold rolesIn rolesOutside
  induction u.roles with
  | nil => rfl
  | cons r rs ih =>
    by_cases h : r.organization = org
    · simp only [List.filter_cons, h, decide_true, if_true, ne_eq, not_true, decide_false, List.length_cons]
      simp only [ne_eq] at ih
      simp only [Bool.false_eq_true, if_false]
      omega
    · simp only [List.filter_cons, h, decide_false, ne_eq, not_false_iff, decide_true, if_true, List.length_cons,
        Bool.false_eq_true, if_false]
      simp only [ne_eq] at ih
      omega

theorem filter_in (h : ∀ r ∈ rs, r.organization = org) : rs.filter (fun r => r.organization = org) = rs :=
  List.filter_eq_self.mpr fun r hr => by simpa using h r hr

theorem filter_outside (h : ∀ r ∈ rs, r.organization = org) : rs.filter (fun r => r.organization ≠ org) = [] :=
  List.filter_eq_nil_iff.mpr fun r hr => by simpa using h r hr

/-- The roles of `u` in other organizations, and then the roles `rs`. -/
def setRoles (u : User) (org : String) (rs : List Role) : List Role := u.rolesOutside org ++ rs

theorem rolesOutside_setRoles (hr : u.roles = usr.setRoles org rs) (h : ∀ r ∈ rs, r.organization = org) :
    u.rolesOutside org = usr.rolesOutside org := by
  unfold rolesOutside
  rw [hr, setRoles, List.filter_append, filter_outside h, List.append_nil, rolesOutside, List.filter_filter]
  simp

theorem rolesIn_setRoles (hr : u.roles = usr.setRoles org rs) (h : ∀ r ∈ rs, r.organization = org) :
    u.rolesIn org = rs := by
  unfold rolesIn
  rw [hr, setRoles, List.filter_append, filter_in h, rolesOutside, List.filter_filter]
  have hnil : usr.roles.filter (fun r => decide (r.organization = org) && decide (r.organization ≠ org)) = [] := by
    refine List.filter_eq_nil_iff.mpr fun r _ => ?_
    simp
  rw [hnil, List.nil_append]

end User

namespace Organizations

open Bolt.UsersStore (findLogin)

theorem go_ok (orgID : String) : ∀ {rs : List Role}, validOrganizationRoles.go orgID rs = .ok () →
    ∀ r ∈ rs, r.organization = orgID
  | [], _, r, hr => absurd hr (by simp)
  | r :: rs, h, r', hr' => by
    unfold validOrganizationRoles.go at h
    split at h
    · cases h
    split at h
    · cases h
    rename_i horg
    split at h
    · cases h
    rcases List.mem_cons.mp hr' with rfl | hr'
    · exact not_ne_iff.mp horg
    · exact go_ok orgID h r' hr'

/-- Roles that pass the check are all in the organization. -/
theorem validOrganizationRoles_ok {orgID : String} {u : User} (h : validOrganizationRoles orgID u = .ok ()) :
    ∀ r ∈ u.roles, r.organization = orgID :=
  go_ok orgID h

namespace UsersStore

variable {org : String} {ctx : Context} {db db' : Db} {u usr v : User}

/-! ### What a call of the facade can do -/

theorem run_get (hctx : validOrganization ctx = .ok ()) (q : UserQuery) :
    (get Bolt.usersStore org ctx q).run db =
      (match ((Bolt.UsersStore.get ctx q).run db).1 with
        | .ok usr => if usr.rolesIn org = [] then .error .errUserNotFound else .ok (usr.inOrganization org)
        | .error e => .error e, db) := by
  have hdb := Bolt.UsersStore.run_get_snd ctx q db
  unfold get
  simp only [hctx, Tx.run_bind, Tx.run_ofExcept, Bolt.usersStore_get]
  rcases hr : (Bolt.UsersStore.get ctx q).run db with ⟨⟨e⟩ | ⟨usr⟩, s'⟩
  · rw [hr] at hdb
    obtain rfl : s' = db := hdb
    rfl
  · rw [hr] at hdb
    obtain rfl : s' = db := hdb
    simp only [List.length_eq_zero_iff]
    split <;> rfl

/-- The user the facade stores when it adds `u`, which the store knows as `usr`. -/
def merged (org : String) (usr u : User) : User :=
  { usr with roles := usr.setRoles org u.roles, superAdmin := usr.superAdmin || u.superAdmin }

/-- The record that `add` builds for a user the store knows. -/
theorem merged_eq (org : String) (usr u : User) :
    (if u.superAdmin = true then { usr with roles := usr.rolesOutside org ++ u.roles, superAdmin := true }
      else { usr with roles := usr.rolesOutside org ++ u.roles }) = merged org usr u := by
  cases hsa : u.superAdmin <;> simp [merged, User.setRoles, hsa]

theorem add_known (hctx : validOrganization ctx = .ok ()) (hroles : validOrganizationRoles org u = .ok ())
    (hu : findLogin db u.name u.provider u.scheme = some usr) :
    (add Bolt.usersStore org ctx u).run db =
      if usr.rolesIn org = [] then
        (.ok { u with id := usr.id }, { db with users := db.users.put (merged org usr u) })
      else (.error .errUserAlreadyExists, db) := by
  have hstored : db.users.get usr.id = some usr := Bucket.get_of_mem (Bolt.UsersStore.findLogin_some hu).1
  have hlen := usr.length_rolesIn_add org
  unfold add
  simp only [hctx, hroles, Tx.run_bind, Tx.run_ofExcept, Tx.run_attempt, Bolt.usersStore_get,
    Bolt.usersStore_update, Bolt.UsersStore.run_get_login, hu]
  by_cases hin : usr.rolesIn org = []
  · rw [hin, List.length_nil] at hlen
    rw [if_neg (by omega), if_pos hin, Tx.run_bind]
    have hstored' : db.users.get (merged org usr u).id = some usr := hstored
    rw [merged_eq, Bolt.UsersStore.run_update_of_some ctx hstored']
    rfl
  · have hpos : 0 < (usr.rolesIn org).length := List.length_pos_iff.mpr hin
    rw [if_pos (by omega), if_neg hin]
    rfl

theorem add_unknown (hctx : validOrganization ctx = .ok ()) (hroles : validOrganizationRoles org u = .ok ())
    (hu : findLogin db u.name u.provider u.scheme = none) :
    (add Bolt.usersStore org ctx u).run db = (.ok { u with id := db.users.seq + 1 },
      { db with users := db.users.nextSequence.put { u with id := db.users.seq + 1 } }) := by
  unfold add
  simp only [hctx, hroles, Tx.run_bind, Tx.run_ofExcept, Tx.run_attempt, Bolt.usersStore_get,
    Bolt.usersStore_add, Bolt.UsersStore.run_get_login, hu]
  exact Bolt.UsersStore.run_add_of_none ctx hu

theorem run_invalid {α : Type} {e : Error} (hctx : validOrganization ctx = .error e) (p : Tx Error Db α) :
    (do Tx.ofExcept (validOrganization ctx); p).run db = (.error e, db) := by
  rw [hctx, Tx.run_bind, Tx.run_ofExcept]

/-- `Add` of the facade is refused, or it adds a user the store does not know,
or it gives one that is not in the organization the roles there. -/
theorem add_cases (org : String) (ctx : Context) (u : User) (db : Db) :
    (∃ e, (add Bolt.usersStore org ctx u).run db = (.error e, db)) ∨
    ((∀ r ∈ u.roles, r.organization = org) ∧ findLogin db u.name u.provider u.scheme = none ∧
      (add Bolt.usersStore org ctx u).run db = (.ok { u with id := db.users.seq + 1 },
        { db with users := db.users.nextSequence.put { u with id := db.users.seq + 1 } })) ∨
    ∃ usr, (∀ r ∈ u.roles, r.organization = org) ∧ findLogin db u.name u.provider u.scheme = some usr ∧
      usr.rolesIn org = [] ∧ (add Bolt.usersStore org ctx u).run db =
        (.ok { u with id := usr.id }, { db with users := db.users.put (merged org usr u) }) := by
  cases hctx : validOrganization ctx with
  | error e => exact .inl ⟨e, run_invalid hctx _⟩
  | ok =>
    cases hroles : validOrganizationRoles org u with
    | error e =>
      refine .inl ⟨e, ?_⟩
      unfold add
      simp only [hctx, hroles, Tx.run_bind, Tx.run_ofExcept]
    | ok =>
      have hin := validOrganizationRoles_ok hroles
      cases hu : findLogin db u.name u.provider u.scheme with
      | none => exact .inr (.inl ⟨hin, rfl, add_unknown hctx hroles hu⟩)
      | some usr =>
        have hrun := add_known hctx hroles hu
        by_cases hnew : usr.rolesIn org = []
        · rw [if_pos hnew] at hrun
          exact .inr (.inr ⟨usr, hin, rfl, hnew, hrun⟩)
        · rw [if_neg hnew] at hrun
          exact .inl ⟨_, hrun⟩

/-- `Update` of the facade is refused, or it stores the user it is given with the
stored roles in other organizations. -/
theorem update_cases (org : String) (ctx : Context) (u : User) (db : Db) :
    (∃ e, (update Bolt.usersStore org ctx u).run db = (.error e, db)) ∨
    ∃ usr, (∀ r ∈ u.roles, r.organization = org) ∧ db.users.get u.id = some usr ∧
      (update Bolt.usersStore org ctx u).run db =
        (.ok (), { db with users := db.users.put { u with roles := usr.setRoles org u.roles } }) := by
  cases hctx : validOrganization ctx with
  | error e => exact .inl ⟨e, run_invalid hctx _⟩
  | ok =>
    cases hroles : validOrganizationRoles org u with
    | error e =>
      refine .inl ⟨e, ?_⟩
      unfold update
      simp only [hctx, hroles, Tx.run_bind, Tx.run_ofExcept]
    | ok =>
      cases hu : db.users.get u.id with
      | none =>
        refine .inl ⟨.errUserNotFound, ?_⟩
        unfold update
        simp only [hctx, hroles, Tx.run_bind, Tx.run_ofExcept, Bolt.usersStore_get, Bolt.UsersStore.get,
          Bolt.UsersStore.run_getID, hu]
      | some usr =>
        refine .inr ⟨usr, validOrganizationRoles_ok hroles, rfl, ?_⟩
        unfold update
        simp only [hctx, hroles, Tx.run_bind, Tx.run_ofExcept, Bolt.usersStore_get, Bolt.UsersStore.get,
          Bolt.UsersStore.run_getID, hu]
        exact Bolt.UsersStore.run_update_of_some ctx (u := { u with roles := usr.setRoles org u.roles }) hu

/-- `Delete` of the facade is refused, or it takes the roles in the organization
from the stored user. -/
theorem delete_cases (org : String) (ctx : Context) (u : User) (db : Db) :
    (∃ e, (delete Bolt.usersStore org ctx u).run db = (.error e, db)) ∨
    ∃ usr, db.users.get u.id = some usr ∧ (delete Bolt.usersStore org ctx u).run db =
        (.ok (), { db with users := db.users.put { usr with roles := usr.setRoles org [] } }) := by
  cases hctx : validOrganization ctx with
  | error e => exact .inl ⟨e, run_invalid hctx _⟩
  | ok =>
    cases hu : db.users.get u.id with
    | none =>
      refine .inl ⟨.errUserNotFound, ?_⟩
      unfold delete
      simp only [hctx, Tx.run_bind, Tx.run_ofExcept, Bolt.usersStore_get, Bolt.UsersStore.get,
        Bolt.UsersStore.run_getID, hu]
    | some usr =>
      have hid : usr.id = u.id := (Bucket.get_some hu).2
      refine .inr ⟨usr, rfl, ?_⟩
      unfold delete
      simp only [hctx, Tx.run_bind, Tx.run_ofExcept, Bolt.usersStore_get, Bolt.UsersStore.get,
        Bolt.UsersStore.run_getID, hu, User.setRoles, List.append_nil]
      exact Bolt.UsersStore.run_update_of_some ctx (u := { usr with roles := usr.rolesOutside org }) (hid.symm ▸ hu)

/-! ### The lens -/

/-- The roles stored for the user with the ID; none if there is no such user. -/
def rolesOf (db : Db) (id : ℕ) : List Role := ((db.users.get id).map User.roles).getD []

/-- Between `db` and `db'` the roles of the user `id` in `org` were set to `rs`:
its roles in other organizations are the ones it had, in their order, and
nobody and nothing else changed. -/
structure RolesSet (org : String) (id : ℕ) (rs : List Role) (db db' : Db) : Prop where
  outside : (rolesOf db' id).filter (fun r => r.organization ≠ org) =
    (rolesOf db id).filter fun r => r.organization ≠ org
  inside : (rolesOf db' id).filter (fun r => r.organization = org) = rs
  others : ∀ k, k ≠ id → db'.users.get k = db.users.get k
  rest : db' = { db with users := db'.users }

/-- Storing a user whose roles are the ones `usr` has elsewhere, and `u`'s. -/
theorem rolesSet_put (usr v : User) {rs : List Role} (hold : rolesOf db usr.id = usr.roles) (hid : v.id = usr.id)
    (hroles : v.roles = usr.setRoles org rs) (h : ∀ r ∈ rs, r.organization = org) :
    RolesSet org usr.id rs db { db with users := db.users.put v } := by
  have hnew : rolesOf { db with users := db.users.put v } usr.id = v.roles := by
    unfold rolesOf
    rw [← hid, ← key_user, Bucket.get_put_self (by simp)]
    rfl
  refine ⟨?_, ?_, fun k hk => Bucket.get_put_ne (by rw [key_user, hid]; exact hk), rfl⟩
  · rw [hnew, hold]
    exact User.rolesOutside_setRoles hroles h
  · rw [hnew]
    exact User.rolesIn_setRoles hroles h

theorem rolesOf_stored (h : usr ∈ db.users.recs) : rolesOf db usr.id = usr.roles := by
  unfold rolesOf
  rw [← key_user, Bucket.get_of_mem h]
  rfl

/-- Adding a user under a number the bucket has not given out. -/
theorem rolesSet_insert (hdb : db.users.Issued) (h : ∀ r ∈ u.roles, r.organization = org) :
    RolesSet org (db.users.seq + 1) u.roles db
      { db with users := db.users.nextSequence.put { u with id := db.users.seq + 1 } } := by
  have hold : rolesOf db (db.users.seq + 1) = [] := by
    unfold rolesOf
    rw [← ofSeq_nat (db.users.seq + 1), hdb.get_next (Nat.lt_succ_self _)]
    rfl
  have hnew : rolesOf { db with users := db.users.nextSequence.put { u with id := db.users.seq + 1 } }
      (db.users.seq + 1) = u.roles := by
    have hget : (db.users.nextSequence.put { u with id := db.users.seq + 1 }).get (db.users.seq + 1) =
        some { u with id := db.users.seq + 1 } := Bucket.get_put_self (by simp)
    unfold rolesOf
    simp only [hget, Option.map_some, Option.getD_some]
  refine ⟨?_, ?_, fun k hk => ?_, rfl⟩
  · rw [hnew, hold]
    exact User.filter_outside h
  · rw [hnew]
    exact User.filter_in h
  · show (db.users.nextSequence.put _).get k = db.users.get k
    rw [Bucket.get_put_ne (by exact hk), Bucket.get_nextSequence]

theorem add_lens (hdb : db.users.Issued) {res : User}
    (hrun : (add Bolt.usersStore org ctx u).run db = (.ok res, db')) :
    RolesSet org res.id u.roles db db' ∧ ∃ v, db'.users.get res.id = some v ∧ v.login = u.login := by
  rcases add_cases org ctx u db with ⟨e, h⟩ | ⟨hin, -, h⟩ | ⟨usr, hin, hlogin, -, h⟩
  · rw [h] at hrun
    cases hrun
  · rw [h, Prod.mk.injEq] at hrun
    obtain ⟨hres, rfl⟩ := hrun
    obtain rfl := Except.ok.inj hres
    exact ⟨rolesSet_insert hdb hin, _, Bucket.get_put_self (by simp), rfl⟩
  · rw [h, Prod.mk.injEq] at hrun
    obtain ⟨hres, rfl⟩ := hrun
    obtain rfl := Except.ok.inj hres
    obtain ⟨hmem, hl⟩ := Bolt.UsersStore.findLogin_some hlogin
    refine ⟨rolesSet_put usr (merged org usr u) (rolesOf_stored hmem) rfl rfl hin, merged org usr u, ?_, hl⟩
    exact Bucket.get_put_self (r := merged org usr u) (by simp)

theorem update_lens (hrun : (update Bolt.usersStore org ctx u).run db = (.ok (), db')) :
    RolesSet org u.id u.roles db db' := by
  rcases update_cases org ctx u db with ⟨e, h⟩ | ⟨usr, hin, hget, h⟩
  · rw [h] at hrun
    cases hrun
  · rw [h, Prod.mk.injEq] at hrun
    obtain ⟨-, rfl⟩ := hrun
    obtain ⟨hmem, hid⟩ := Bucket.get_some hget
    rw [key_user] at hid
    have hset := rolesSet_put usr { u with roles := usr.setRoles org u.roles } (rolesOf_stored hmem) hid.symm rfl hin
    rwa [hid] at hset

theorem delete_lens (hrun : (delete Bolt.usersStore org ctx u).run db = (.ok (), db')) :
    RolesSet org u.id [] db db' := by
  rcases delete_cases org ctx u db with ⟨e, h⟩ | ⟨usr, hget, h⟩
  · rw [h] at hrun
    cases hrun
  · rw [h, Prod.mk.injEq] at hrun
    obtain ⟨-, rfl⟩ := hrun
    obtain ⟨hmem, hid⟩ := Bucket.get_some hget
    rw [key_user] at hid
    rw [← hid]
    exact rolesSet_put usr { usr with roles := usr.setRoles org [] } (rolesOf_stored hmem) rfl rfl (by simp)

/-- What the reading calls of the facade show of `db`: the users with a role in
the organization, each with its roles there. -/
structure Shows (org : String) (ctx : Context) (db : Db) : Prop where
  all : (UsersStore.all Bolt.usersStore org ctx).run db =
    (.ok ((db.users.recs.filter fun u => u.rolesIn org ≠ []).map fun u => u.inOrganization org), db)
  num : (UsersStore.num Bolt.usersStore org ctx).run db =
    (.ok (db.users.recs.filter fun u => u.rolesIn org ≠ []).length, db)
  get_id : ∀ (id : ℕ) (v : User), (UsersStore.get Bolt.usersStore org ctx { id := id }).run db = (.ok v, db) ↔
    ∃ u ∈ db.users.recs, u.id = id ∧ u.rolesIn org ≠ [] ∧ v = u.inOrganization org
  get_login : ∀ u ∈ db.users.recs, (∀ w ∈ db.users.recs, w.login = u.login → w = u) → u.rolesIn org ≠ [] →
    (UsersStore.get Bolt.usersStore org ctx { name := u.name, provider := u.provider, scheme := u.scheme }).run db =
      (.ok (u.inOrganization org), db)
  get : ∀ (q : UserQuery) (v : User), ((UsersStore.get Bolt.usersStore org ctx q).run db).1 = .ok v →
    ∃ u ∈ db.users.recs, u.rolesIn org ≠ [] ∧ v = u.inOrganization org

theorem visible_eq : ∀ us : List User, visible org us =
    (us.filter fun u => u.rolesIn org ≠ []).map fun u => u.inOrganization org
  | [] => rfl
  | u :: us => by
    have ih := visible_eq us
    unfold visible at ih ⊢
    by_cases h : u.rolesIn org = []
    · rw [List.filterMap_cons_none (by simp [h]), List.filter_cons_of_neg (by simp [h]), ih]
    · rw [List.filterMap_cons_some (b := u.inOrganization org) (by simp [h, User.inOrganization]),
        List.filter_cons_of_pos (by simp [h]), List.map_cons, ih]

theorem run_all (hctx : validOrganization ctx = .ok ()) : (all Bolt.usersStore org ctx).run db =
    (.ok ((db.users.recs.filter fun u => u.rolesIn org ≠ []).map fun u => u.inOrganization org), db) := by
  unfold all
  simp only [hctx, Tx.run_bind, Tx.run_ofExcept, Bolt.usersStore_all, Bolt.UsersStore.all, Db.run_view,
    Tx.run_pure, visible_eq]

theorem get_ok_iff (hctx : validOrganization ctx = .ok ()) (q : UserQuery) :
    ((get Bolt.usersStore org ctx q).run db).1 = .ok v ↔
      ∃ u, ((Bolt.UsersStore.get ctx q).run db).1 = .ok u ∧ u.rolesIn org ≠ [] ∧ v = u.inOrganization org := by
  rw [run_get hctx]
  rcases ((Bolt.UsersStore.get ctx q).run db).1 with e | u
  · simp
  · by_cases h : u.rolesIn org = []
    · simp [h]
    · simp only [h, if_false, Except.ok.injEq]
      constructor
      · exact fun hv => ⟨u, rfl, h, hv.symm⟩
      · rintro ⟨u', rfl, -, hv⟩
        exact hv.symm

theorem shows (hctx : validOrganization ctx = .ok ()) : Shows org ctx db where
  all := run_all hctx
  num := by
    unfold num
    simp only [hctx, Tx.run_bind, Tx.run_ofExcept, run_all, Tx.run_pure, List.length_map]
  get_login := fun u hu hunique hne => by
    have hfind : findLogin db u.name u.provider u.scheme = some u := by
      cases hl : findLogin db u.name u.provider u.scheme with
      | none => exact absurd rfl (Bolt.UsersStore.findLogin_none.mp hl u hu)
      | some w =>
        obtain ⟨hw, hlogin⟩ := Bolt.UsersStore.findLogin_some hl
        rw [hunique w hw hlogin]
    rw [run_get hctx, Bolt.UsersStore.run_get_login, hfind]
    simp only [hne, if_false]
  get := fun q v hv => by
    obtain ⟨u, hu, hne, hv⟩ := (get_ok_iff hctx q).mp hv
    exact ⟨u, Bolt.UsersStore.mem_of_get ctx q hu, hne, hv⟩
  get_id := fun id v => by
    have hsnd : ((UsersStore.get Bolt.usersStore org ctx { id := id }).run db).2 = db := by rw [run_get hctx]
    have hfst : (UsersStore.get Bolt.usersStore org ctx { id := id }).run db = (.ok v, db) ↔
        ((UsersStore.get Bolt.usersStore org ctx { id := id }).run db).1 = .ok v :=
      ⟨fun h => by rw [h], fun h => Prod.ext h hsnd⟩
    have hraw : ∀ u, ((Bolt.UsersStore.get ctx { id := id }).run db).1 = .ok u ↔ u ∈ db.users.recs ∧ u.id = id := by
      intro u
      show ((Bolt.UsersStore.getID id).run db).1 = .ok u ↔ _
      rw [Bolt.UsersStore.run_getID, ← key_user, ← Bucket.get_eq_some]
      cases db.users.get id <;> simp
    rw [hfst, get_ok_iff hctx]
    constructor
    · rintro ⟨u, hu, hne, hv⟩
      exact ⟨u, ((hraw u).mp hu).1, ((hraw u).mp hu).2, hne, hv⟩
    · rintro ⟨u, hmem, hid, hne, hv⟩
      exact ⟨u, (hraw u).mpr ⟨hmem, hid⟩, hne, hv⟩

/-- A refused call leaves the store as it was. -/
theorem refused (org : String) (ctx : Context) (db db' : Db) (e : Error) (u : User) :
    ((add Bolt.usersStore org ctx u).run db = (.error e, db') → db' = db) ∧
    ((update Bolt.usersStore org ctx u).run db = (.error e, db') → db' = db) ∧
    ((delete Bolt.usersStore org ctx u).run db = (.error e, db') → db' = db) := by
  refine ⟨fun hrun => ?_, fun hrun => ?_, fun hrun => ?_⟩
  · rcases add_cases org ctx u db with ⟨e', h⟩ | ⟨-, -, h⟩ | ⟨usr, -, -, -, h⟩ <;> rw [h] at hrun <;> cases hrun
    rfl
  · rcases update_cases org ctx u db with ⟨e', h⟩ | ⟨usr, -, -, h⟩ <;> rw [h] at hrun <;> cases hrun
    rfl
  · rcases delete_cases org ctx u db with ⟨e', h⟩ | ⟨usr, -, h⟩ <;> rw [h] at hrun <;> cases hrun
    rfl

end UsersStore

/-- A user with a role in organization 1. -/
def exampleUser : User := ⟨0, "alice", [⟨viewerRoleName, "1"⟩], "github", "oauth2", false⟩

end Organizations
end Chronograf
