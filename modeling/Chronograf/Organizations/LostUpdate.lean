/-
# Two facades at one user

A call of an organization's users facade reads the user in one transaction,
looks for it again in a second one, and writes all of it in a third. Calls of
two organizations on one user leave both organizations' roles as they set them
if one runs its transactions before the other reads. Otherwise one write is
lost, and it is the same only if it set the roles that were there.

Key definitions: `RoleCall`, `RoleCall.program`, `SameUser`, `NothingLost`.
Key theorem: `both_role_updates_kept_iff`.
-/
import Chronograf.Lib.ReadModifyWrite
import Chronograf.Organizations.Lens

namespace Chronograf
namespace Organizations

open Bolt.UsersStore (findLogin)

/-- A call of a users facade that writes. -/
inductive RoleCall
  | add (u : User)
  | update (u : User)
  | delete (u : User)

namespace RoleCall

/-- The transactions of the call, through the facade of `org`. -/
def program (org : String) (ctx : Context) : RoleCall → Tx Error Db Unit
  | .add u => do let _ ← (newUsersStore Bolt.usersStore org).add ctx u; pure ()
  | .update u => (newUsersStore Bolt.usersStore org).update ctx u
  | .delete u => (newUsersStore Bolt.usersStore org).delete ctx u

/-- The roles the call sets. -/
def roles : RoleCall → List Role
  | .add u => u.roles
  | .update u => u.roles
  | .delete _ => []

/-- What the call writes when it has read `s`. -/
def writes (org : String) : RoleCall → Db → Db → Db
  | .add u, s => match findLogin s u.name u.provider u.scheme with
    | some usr => fun db => { db with users := db.users.put (UsersStore.merged org usr u) }
    | none => fun db =>
      { db with users := db.users.nextSequence.put { u with id := db.users.seq + 1 } }
  | .update u, s => match s.users.get u.id with
    | some usr => fun db => { db with users := db.users.put { u with roles := usr.setRoles org u.roles } }
    | none => id
  | .delete u, s => match s.users.get u.id with
    | some usr => fun db => { db with users := db.users.put { usr with roles := usr.setRoles org [] } }
    | none => id

/-- The states that let the call go on. -/
def Proceeds (org : String) : RoleCall → Db → Prop
  | .add u, s => ∀ usr, findLogin s u.name u.provider u.scheme = some usr → usr.rolesIn org = []
  | .update u, s => s.users.get u.id ≠ none
  | .delete u, s => s.users.get u.id ≠ none

/-- The call is one on the user with this login and ID. -/
def On (login : String × String × String) (id : ℕ) : RoleCall → Prop
  | .add u => u.login = login
  | .update u => u.id = id ∧ u.login = login
  | .delete u => u.id = id

end RoleCall

/-- The user that is found by the login. -/
def lookup (db : Db) (login : String × String × String) : Option User :=
  findLogin db login.1 login.2.1 login.2.2

/-- `id` is the ID of the user with the login, or the one it will get. -/
def IsUser (db : Db) (login : String × String × String) (id : ℕ) : Prop :=
  match lookup db login with
  | some usr => usr.id = id
  | none => id = db.users.seq + 1

section Programs

variable {org : String} {ctx : Context} {u : User}

open Tx

theorem commits_update (ctx : Context) (v : User) :
    Commits (fun db : Db => { db with users := db.users.put v }) 1 (Bolt.UsersStore.update ctx v) := by
  refine ⟨_, rfl, fun s => ?_⟩
  cases h : s.users.get v.id with
  | none => exact .inl ⟨.errUserNotFound, by simp only [h]; rfl⟩
  | some usr =>
    refine .inr ?_
    simp only [h]
    exact ⟨_, rfl, fun s' => ⟨(), rfl⟩⟩

theorem commits_add (ctx : Context) (u : User) :
    Commits (fun db : Db => { db with users := db.users.nextSequence.put { u with id := db.users.seq + 1 } }) 1
      (Bolt.UsersStore.add ctx u) := by
  refine ⟨_, rfl, fun s => ?_⟩
  cases h : findLogin s u.name u.provider u.scheme with
  | some usr => exact .inl ⟨.errUserAlreadyExists, by simp only [h]; rfl⟩
  | none =>
    refine .inr ?_
    simp only [h]
    exact ⟨_, rfl, fun s' => ⟨_, rfl⟩⟩

theorem rmw_update (hctx : validOrganization ctx = .ok ()) (hroles : validOrganizationRoles org u = .ok ()) :
    Rmw ((RoleCall.update u).Proceeds org) ((RoleCall.update u).writes org) 1 ((RoleCall.update u).program org ctx) := by
  unfold RoleCall.program
  show Rmw _ _ 1 (UsersStore.update Bolt.usersStore org ctx u)
  unfold UsersStore.update
  rw [hctx, hroles]
  refine ⟨_, rfl, fun s => ?_⟩
  cases h : s.users.get u.id with
  | none => exact .inl ⟨.errUserNotFound, by simp only [h]; rfl⟩
  | some usr =>
    refine .inr ⟨by simp [RoleCall.Proceeds, h], ?_⟩
    simp only [RoleCall.writes, h]
    exact commits_update ctx { u with roles := usr.setRoles org u.roles }

theorem rmw_delete (hctx : validOrganization ctx = .ok ()) :
    Rmw ((RoleCall.delete u).Proceeds org) ((RoleCall.delete u).writes org) 1 ((RoleCall.delete u).program org ctx) := by
  unfold RoleCall.program
  show Rmw _ _ 1 (UsersStore.delete Bolt.usersStore org ctx u)
  unfold UsersStore.delete
  rw [hctx]
  refine ⟨_, rfl, fun s => ?_⟩
  cases h : s.users.get u.id with
  | none => exact .inl ⟨.errUserNotFound, by simp only [h]; rfl⟩
  | some usr =>
    refine .inr ⟨by simp [RoleCall.Proceeds, h], ?_⟩
    simp only [RoleCall.writes, h, User.setRoles, List.append_nil]
    exact commits_update ctx { usr with roles := usr.rolesOutside org }

theorem rmw_add (hctx : validOrganization ctx = .ok ()) (hroles : validOrganizationRoles org u = .ok ()) :
    Rmw ((RoleCall.add u).Proceeds org) ((RoleCall.add u).writes org) 1 ((RoleCall.add u).program org ctx) := by
  unfold RoleCall.program
  show Rmw _ _ 1 (do let _ ← UsersStore.add Bolt.usersStore org ctx u; pure ())
  unfold UsersStore.add
  rw [hctx, hroles]
  refine ⟨_, rfl, fun s => ?_⟩
  cases h : findLogin s u.name u.provider u.scheme with
  | none =>
    refine .inr ⟨by simp [RoleCall.Proceeds, h], ?_⟩
    simp only [RoleCall.writes, h]
    exact (commits_add ctx u).map fun _ => ()
  | some usr =>
    simp only [RoleCall.writes, h]
    by_cases hin : usr.roles.length - (usr.rolesOutside org).length > 0
    · refine .inl ⟨.errUserAlreadyExists, ?_⟩
      show (if usr.roles.length - (usr.rolesOutside org).length > 0 then Tx.fail Error.errUserAlreadyExists
        else _ : Tx Error Db User).bind _ = _
      rw [if_pos hin]
      rfl
    · have hproceeds : (RoleCall.add u).Proceeds org s := by
        intro usr' h'
        obtain rfl := Option.some.inj (h.symm.trans h')
        have hlen := usr.length_rolesIn_add org
        exact List.length_eq_zero_iff.mp (by omega)
      refine .inr ⟨hproceeds, Commits.map (fun _ => ()) ?_⟩
      show Commits _ 1 (if usr.roles.length - (usr.rolesOutside org).length > 0 then
        Tx.fail Error.errUserAlreadyExists else _ : Tx Error Db User)
      rw [if_neg hin]
      refine Commits.map _ ?_
      rw [UsersStore.merged_eq]
      exact commits_update ctx (UsersStore.merged org usr u)

/-- A call is refused at once, or it is a read-modify-write program that sets
roles in its organization. -/
theorem program_cases (org : String) (ctx : Context) : ∀ call : RoleCall,
    (∃ e, call.program org ctx = .ret (.error e)) ∨
    (Rmw (call.Proceeds org) (call.writes org) 1 (call.program org ctx) ∧
      ∀ r ∈ call.roles, r.organization = org) := by
  intro call
  cases hctx : validOrganization ctx with
  | error e =>
    refine .inl ⟨e, ?_⟩
    cases call with
    | add u =>
      show (do let _ ← UsersStore.add Bolt.usersStore org ctx u; pure () : Tx Error Db Unit) = _
      unfold UsersStore.add
      rw [hctx]
      rfl
    | update u =>
      show UsersStore.update Bolt.usersStore org ctx u = _
      unfold UsersStore.update
      rw [hctx]
      rfl
    | delete u =>
      show UsersStore.delete Bolt.usersStore org ctx u = _
      unfold UsersStore.delete
      rw [hctx]
      rfl
  | ok =>
    cases call with
    | add u =>
      cases hroles : validOrganizationRoles org u with
      | error e =>
        refine .inl ⟨e, ?_⟩
        show (do let _ ← UsersStore.add Bolt.usersStore org ctx u; pure () : Tx Error Db Unit) = _
        unfold UsersStore.add
        rw [hctx, hroles]
        rfl
      | ok => exact .inr ⟨rmw_add hctx hroles, validOrganizationRoles_ok hroles⟩
    | update u =>
      cases hroles : validOrganizationRoles org u with
      | error e =>
        refine .inl ⟨e, ?_⟩
        show UsersStore.update Bolt.usersStore org ctx u = _
        unfold UsersStore.update
        rw [hctx, hroles]
        rfl
      | ok => exact .inr ⟨rmw_update hctx hroles, validOrganizationRoles_ok hroles⟩
    | delete u => exact .inr ⟨rmw_delete hctx, by simp [RoleCall.roles]⟩

end Programs

/-! ### What is left of both writes -/

section Writes

variable {org : String} {login : String × String × String} {id : ℕ} {db s : Db} {usr v : User}

theorem login_iff {u : User} : (u.name = login.1 && u.provider = login.2.1 && u.scheme = login.2.2) = true ↔
    u.login = login := by
  simp [User.login, Prod.ext_iff, and_assoc]

theorem lookup_some (h : lookup db login = some usr) : usr ∈ db.users.recs ∧ usr.login = login :=
  Bolt.UsersStore.findLogin_some h

/-- A user with the same ID and login takes the place of the one found. -/
theorem lookup_put (h : lookup db login = some usr) (hid : v.id = usr.id) (hlogin : v.login = login) :
    lookup { db with users := db.users.put v } login = some v :=
  Bucket.find_put_of_key h hid (login_iff.mpr hlogin)

/-- On a user that the store knows, every call writes that user back with its
roles in the organization set. -/
theorem writes_known (org : String) {call : RoleCall} (hon : call.On login id) (h : lookup s login = some usr)
    (hid : usr.id = id) : ∃ v, v.id = id ∧ v.login = login ∧ v.roles = usr.setRoles org call.roles ∧
      call.writes org s = fun db => { db with users := db.users.put v } := by
  obtain ⟨hmem, hlogin⟩ := lookup_some h
  have hget : s.users.get id = some usr := hid ▸ Bucket.get_of_mem hmem
  cases call with
  | add u =>
    have hfind : findLogin s u.name u.provider u.scheme = some usr := by
      have hu : u.login = login := hon
      rw [← hu] at h
      exact h
    exact ⟨UsersStore.merged org usr u, hid, hlogin, rfl, by simp only [RoleCall.writes, hfind]⟩
  | update u =>
    obtain ⟨hu, hul⟩ := hon
    exact ⟨{ u with roles := usr.setRoles org u.roles }, hu, hul, rfl, by simp only [RoleCall.writes, hu, hget]⟩
  | delete u =>
    have hu : u.id = id := hon
    exact ⟨{ usr with roles := usr.setRoles org [] }, hid, hlogin, rfl, by simp only [RoleCall.writes, hu, hget]⟩

/-- On a user that the store does not know, only `Add` goes on, and it adds the
user under the next ID. -/
theorem writes_unknown {call : RoleCall} (hon : call.On login id) (h : lookup s login = none)
    (hid : id = s.users.seq + 1) (hs : s.users.Issued) (hproceeds : call.Proceeds org s) :
    ∃ u : User, u.login = login ∧ u.roles = call.roles ∧ call.writes org s = fun db =>
      { db with users := db.users.nextSequence.put { u with id := db.users.seq + 1 } } := by
  have hget : s.users.get id = none := hid ▸ hs.get_next (Nat.lt_succ_self _)
  cases call with
  | add u =>
    have hfind : findLogin s u.name u.provider u.scheme = none := by
      have hu : u.login = login := hon
      rw [← hu] at h
      exact h
    exact ⟨u, hon, rfl, by simp only [RoleCall.writes, hfind]⟩
  | update u =>
    rw [← hon.1] at hget
    exact absurd hget hproceeds
  | delete u =>
    have hu : u.id = id := hon
    rw [← hu] at hget
    exact absurd hget hproceeds

/-- Setting the roles in one organization leaves those in another one. -/
theorem rolesIn_setRoles_ne {rs : List Role} {org' : String} (hr : v.roles = usr.setRoles org rs)
    (h : ∀ r ∈ rs, r.organization = org) (hne : org' ≠ org) : v.rolesIn org' = usr.rolesIn org' := by
  unfold User.rolesIn
  have hnil : rs.filter (fun r => r.organization = org') = [] := by
    refine List.filter_eq_nil_iff.mpr fun r hr => ?_
    rw [decide_eq_true_eq, h r hr]
    exact hne.symm
  rw [hr, User.setRoles, List.filter_append, hnil, List.append_nil, User.rolesOutside, List.filter_filter]
  refine List.filter_congr fun r _ => ?_
  by_cases hro : r.organization = org'
  · simp [hro, hne]
  · simp [hro]

end Writes

/-- Two calls, one through the facade of each organization, about to begin. -/
def twoCalls (org : Bool → String) (ctx : Bool → Context) (call : Bool → RoleCall) (db : Db) :
    Tx.Config Bool Error Db Unit :=
  ⟨fun i => (call i).program (org i) (ctx i), db⟩

/-- Either one call makes its three transactions before the other one begins, or
the call whose write is lost set the roles that the user had: of two calls on a
user that is there the first to write is lost, of two that add the user the
second one, under an ID of its own, is. -/
def NothingLost (org : Bool → String) (call : Bool → RoleCall) (db : Db) (login : String × String × String)
    (sched : List Bool) : Prop :=
  (∃ i, List.replicate 3 i <+: sched) ∨
    let first := Tx.firstDone (fun _ => 2) sched
    match lookup db login with
    | some usr => usr.rolesIn (org first) = (call first).roles
    | none => (call !first).roles = []

/-- The user found by the login has the roles that each call set. -/
def BothKept (org : Bool → String) (call : Bool → RoleCall) (db : Db) (login : String × String × String) : Prop :=
  ∃ usr, lookup db login = some usr ∧ ∀ i, usr.rolesIn (org i) = (call i).roles

section Final

variable {org : Bool → String} {call : Bool → RoleCall} {login : String × String × String} {id : ℕ} {db : Db}
  {usr : User}

/-- The second write is computed from what the first one left. -/
theorem bothKept_serial (k : Bool) (horg : org false ≠ org true) (hon : ∀ i, (call i).On login id)
    (hroles : ∀ i, ∀ r ∈ (call i).roles, r.organization = org i) {v : User} {s : Db}
    (hs : lookup s login = some v) (hid : v.id = id) (hv : v.rolesIn (org k) = (call k).roles) :
    BothKept org call ((call !k).writes (org !k) s s) login := by
  obtain ⟨v', hid', hlogin', hr', hw⟩ := writes_known (org !k) (hon !k) hs hid
  have hne : org k ≠ org !k := by cases k <;> simp [horg, horg.symm]
  rw [hw]
  refine ⟨v', lookup_put hs (hid'.trans hid.symm) hlogin', fun i => ?_⟩
  by_cases hik : i = k
  · rw [hik, rolesIn_setRoles_ne hr' (hroles !k) hne, hv]
  · rw [Bool.eq_not.mpr hik]
    exact User.rolesIn_setRoles hr' (hroles !k)

/-- Both writes are computed from the same user: the second one is left. -/
theorem bothKept_known (f : Bool) (horg : org false ≠ org true) (hon : ∀ i, (call i).On login id)
    (hroles : ∀ i, ∀ r ∈ (call i).roles, r.organization = org i) (h : lookup db login = some usr)
    (hid : usr.id = id) :
    BothKept org call ((call !f).writes (org !f) db ((call f).writes (org f) db db)) login ↔
      usr.rolesIn (org f) = (call f).roles := by
  obtain ⟨v, hv, hvl, hvr, hw⟩ := writes_known (org f) (hon f) h hid
  obtain ⟨v', hv', hvl', hvr', hw'⟩ := writes_known (org !f) (hon !f) h hid
  have hne : org f ≠ org !f := by cases f <;> simp [horg, horg.symm]
  have hfirst := lookup_put h (hv.trans hid.symm) hvl
  have hlast := lookup_put hfirst (hv'.trans hv.symm) hvl'
  rw [hw, hw']
  have hlost : v'.rolesIn (org f) = usr.rolesIn (org f) := rolesIn_setRoles_ne hvr' (hroles !f) hne
  constructor
  · rintro ⟨w, hw, hkept⟩
    rw [hlast, Option.some.injEq] at hw
    rw [← hlost, hw, hkept f]
  · intro hsame
    refine ⟨v', hlast, fun i => ?_⟩
    by_cases hif : i = f
    · rw [hif, hlost, hsame]
    · rw [Bool.eq_not.mpr hif]
      exact User.rolesIn_setRoles hvr' (hroles !f)

/-- Both calls add the user: the first record is the one that is found. -/
theorem bothKept_unknown (f : Bool) (horg : org false ≠ org true) (hon : ∀ i, (call i).On login id)
    (hroles : ∀ i, ∀ r ∈ (call i).roles, r.organization = org i) (h : lookup db login = none)
    (hid : id = db.users.seq + 1) (hdb : db.users.Issued) (hproceeds : ∀ i, (call i).Proceeds (org i) db) :
    BothKept org call ((call !f).writes (org !f) db ((call f).writes (org f) db db)) login ↔
      (call !f).roles = [] := by
  obtain ⟨u, hu, hur, hw⟩ := writes_unknown (hon f) h hid hdb (hproceeds f)
  obtain ⟨u', hu', hur', hw'⟩ := writes_unknown (hon !f) h hid hdb (hproceeds !f)
  have hne : org (!f) ≠ org f := by cases f <;> simp [horg, horg.symm]
  rw [hw, hw']
  have hfirst : lookup { db with users := db.users.nextSequence.put { u with id := db.users.seq + 1 } } login =
      some { u with id := db.users.seq + 1 } :=
    Bucket.find_put_of_none h (by simp) (login_iff.mpr hu)
  let b := db.users.nextSequence.put { u with id := db.users.seq + 1 }
  have hlast : lookup { db with users := b.nextSequence.put { u' with id := b.seq + 1 } } login =
      some { u with id := db.users.seq + 1 } := by
    refine Bucket.find_put_of_lt (b := b.nextSequence) hfirst ?_
    show db.users.seq + 1 < b.seq + 1
    rw [Bucket.put_seq, Bucket.nextSequence_seq]
    exact Nat.lt_succ_self _
  have hself : ∀ i, i = f → ({ u with id := db.users.seq + 1 } : User).rolesIn (org i) = (call i).roles := by
    rintro i rfl
    show u.roles.filter _ = _
    rw [hur]
    exact User.filter_in (hroles i)
  have hother : ({ u with id := db.users.seq + 1 } : User).rolesIn (org !f) = [] := by
    refine List.filter_eq_nil_iff.mpr fun r hr => ?_
    rw [decide_eq_true_eq, hroles f r (hur ▸ hr)]
    exact hne.symm
  constructor
  · rintro ⟨w, hw, hkept⟩
    rw [hlast, Option.some.injEq] at hw
    rw [← hkept !f, ← hw, hother]
  · intro hnil
    refine ⟨_, hlast, fun i => ?_⟩
    by_cases hif : i = f
    · exact hself i hif
    · rw [Bool.eq_not.mpr hif, hother, hnil]

/-- Two calls on one user, through the facades of two organizations, that both
succeed in some interleaving of their transactions: the user has the roles that
both of them set if and only if nothing was lost. -/
theorem both_role_updates_kept_iff (org : Bool → String) (ctx : Bool → Context) (call : Bool → RoleCall) (db : Db)
    (login : String × String × String) (id : ℕ) (sched : List Bool) (horg : org false ≠ org true)
    (hdb : db.users.Issued) (huser : IsUser db login id) (hon : ∀ i, (call i).On login id)
    (hok : ∀ i, ((twoCalls org ctx call db).run sched).Succeeds i) :
    BothKept org call ((twoCalls org ctx call db).run sched).store login ↔ NothingLost org call db login sched := by
  have hprog : ∀ i, Tx.Rmw ((call i).Proceeds (org i)) ((call i).writes (org i)) 1
      ((twoCalls org ctx call db).procs i) ∧ ∀ r ∈ (call i).roles, r.organization = org i := by
    intro i
    rcases program_cases (org i) (ctx i) (call i) with ⟨e, he⟩ | h
    · exact absurd (hok i) (Tx.Config.not_succeeds_of_error he)
    · exact h
  have hroles := fun i => (hprog i).2
  rcases Tx.Config.run_two_rmw (fun i => (hprog i).1.orFails) sched hok with ⟨k, hpre, hRk, hR', hfinal⟩ | ⟨hpre, hR, hfinal⟩
  · -- one after the other
    refine ⟨fun _ => .inl ⟨k, hpre⟩, fun _ => ?_⟩
    rw [hfinal]
    cases h : lookup db login with
    | some usr =>
      have hid : usr.id = id := by simpa [IsUser, h] using huser
      obtain ⟨v, hv, hvl, hvr, hw⟩ := writes_known (org k) (hon k) h hid
      have hstep : (call k).writes (org k) db db = { db with users := db.users.put v } := by rw [hw]
      show BothKept org call ((call !k).writes (org !k) ((call k).writes (org k) db db)
        ((call k).writes (org k) db db)) login
      rw [hstep]
      exact bothKept_serial k horg hon hroles (lookup_put h (hv.trans hid.symm) hvl) hv
        (User.rolesIn_setRoles hvr (hroles k))
    | none =>
      have hid : id = db.users.seq + 1 := by simpa [IsUser, h] using huser
      obtain ⟨u, hu, hur, hw⟩ := writes_unknown (hon k) h hid hdb hRk
      have hstep : (call k).writes (org k) db db =
          { db with users := db.users.nextSequence.put { u with id := db.users.seq + 1 } } := by rw [hw]
      show BothKept org call ((call !k).writes (org !k) ((call k).writes (org k) db db)
        ((call k).writes (org k) db db)) login
      rw [hstep]
      refine bothKept_serial k horg hon hroles (v := { u with id := db.users.seq + 1 })
        (Bucket.find_put_of_none h (by simp) (login_iff.mpr hu)) hid.symm ?_
      show u.roles.filter _ = _
      rw [hur]
      exact User.filter_in (hroles k)
  · -- both read the same state
    have hnot : ¬ ∃ i, List.replicate 3 i <+: sched := fun ⟨i, hi⟩ => hpre i hi
    unfold NothingLost
    rw [or_iff_right hnot, hfinal]
    cases h : lookup db login with
    | some usr =>
      have hid : usr.id = id := by simpa [IsUser, h] using huser
      exact bothKept_known _ horg hon hroles h hid
    | none =>
      have hid : id = db.users.seq + 1 := by simpa [IsUser, h] using huser
      exact bothKept_unknown _ horg hon hroles h hid hdb hR

end Final

/-! Organization 1 makes a viewer an editor while organization 2 adds the same
user: both read, and organization 1 writes first. -/

/-- A database with the user of organization 1 only. -/
def exampleUserDb : Db := { Db.empty with users := Bucket.empty.nextSequence.put { exampleUser with id := 1 } }

def exampleOrg : Bool → String
  | false => "1"
  | true => "2"

def exampleCtx (i : Bool) : Context := { organization := some (exampleOrg i) }

def exampleCall : Bool → RoleCall
  | false => .update { exampleUser with id := 1, roles := [⟨editorRoleName, "1"⟩] }
  | true => .add { exampleUser with roles := [⟨viewerRoleName, "2"⟩] }

theorem both_role_updates_kept_iff_example :
    BothKept exampleOrg exampleCall
        ((twoCalls exampleOrg exampleCtx exampleCall exampleUserDb).run [false, true, false, true, false, true]).store
        exampleUser.login ↔
      NothingLost exampleOrg exampleCall exampleUserDb exampleUser.login [false, true, false, true, false, true] :=
  both_role_updates_kept_iff exampleOrg exampleCtx exampleCall exampleUserDb exampleUser.login 1
    [false, true, false, true, false, true] (by decide) (Bucket.Issued.empty.put_next rfl) rfl
    (fun i => by cases i <;> first | exact rfl | exact ⟨rfl, rfl⟩)
    (fun i => by cases i <;> exact ⟨(), rfl⟩)

/-- Both calls succeed, and the user is still a viewer in organization 1. -/
theorem role_update_lost :
    (∀ i, ((twoCalls exampleOrg exampleCtx exampleCall exampleUserDb).run
      [false, true, false, true, false, true]).Succeeds i) ∧
    ¬ BothKept exampleOrg exampleCall
      ((twoCalls exampleOrg exampleCtx exampleCall exampleUserDb).run [false, true, false, true, false, true]).store
      exampleUser.login := by
  refine ⟨fun i => by cases i <;> exact ⟨(), rfl⟩, ?_⟩
  rintro ⟨usr, hfound, hkept⟩
  have hlast : lookup ((twoCalls exampleOrg exampleCtx exampleCall exampleUserDb).run
      [false, true, false, true, false, true]).store exampleUser.login =
      some { exampleUser with id := 1, roles := [⟨viewerRoleName, "1"⟩, ⟨viewerRoleName, "2"⟩] } := rfl
  rw [hlast, Option.some.injEq] at hfound
  subst hfound
  exact absurd (hkept false) (by decide)

end Organizations
end Chronograf
