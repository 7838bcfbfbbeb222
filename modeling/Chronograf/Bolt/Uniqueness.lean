/-
# Unique users and organization names, under concurrency

`UsersStore.Add`, `OrganizationsStore.Add` and `OrganizationsStore.Update`
look for the login or the name in one transaction and write in a later one.
Of any number of such calls interleaved, logins and names stay unique exactly
as long as every write finds the store such that its call's own check would
still pass.

Key definitions: `Unique`, `WriteCall`, `CheckHolds`.
Key theorems: `unique_step_iff`, `unique_run_iff`.
-/
import Chronograf.Bolt.Organizations
import Chronograf.Lib.Interleaving
import Chronograf.Lib.Runs
import Mathlib.Data.List.Infix

namespace Chronograf

open Bolt.UsersStore (findLogin)
open Bolt.OrganizationsStore (findName)

namespace Bolt

/-- Users are told apart by name, provider and scheme, organizations by their name. -/
structure Unique (db : Db) : Prop where
  users : db.users.UniqueBy User.login
  organizations : db.organizations.UniqueBy Organization.name

theorem unique_iff (db : Db) :
    Unique db ↔ db.users.UniqueBy User.login ∧ db.organizations.UniqueBy Organization.name :=
  ⟨fun h => ⟨h.users, h.organizations⟩, fun h => ⟨h.1, h.2⟩⟩

instance (db : Db) : Decidable (Unique db) := decidable_of_iff' _ (unique_iff db)

/-- A call that checks and then writes. -/
inductive WriteCall
  | addUser (u : User)
  | addOrganization (o : Organization)
  | updateOrganization (o : Organization)

/-- The last transactions of the calls. -/
def insertUser (u : User) : Tx Error Db Unit := do let _ ← UsersStore.insert u; pure ()

def insertOrganization (o : Organization) : Tx Error Db Unit := do
  let _ ← OrganizationsStore.insert o
  pure ()

def putOrganization (o : Organization) : Tx Error Db Unit := OrganizationsStore.put o

/-- The transactions of the call. -/
def WriteCall.program (ctx : Context) : WriteCall → Tx Error Db Unit
  | .addUser u => do let _ ← UsersStore.add ctx u; pure ()
  | .addOrganization o => do let _ ← OrganizationsStore.add ctx o; pure ()
  | .updateOrganization o => OrganizationsStore.update ctx o

/-- If the program is about to write, the check its call made passes in `db`. -/
structure CheckHolds (db : Db) (p : Tx Error Db Unit) : Prop where
  addUser : ∀ u, p = insertUser u → findLogin db u.name u.provider u.scheme = none
  addOrganization : ∀ o, p = insertOrganization o → findName db o.name = none
  updateOrganization : ∀ o, p = putOrganization o → ¬ blank o.id →
    (∃ org, db.organizations.get o.id = some org ∧ o.name = org.name) ∨ findName db o.name = none

/-! ### What a call is about to do -/

/-- Organizations are not lost from `db` to `db'`. -/
def Grows (db db' : Db) : Prop :=
  ∀ id, (db.organizations.get id).isSome → (db'.organizations.get id).isSome

theorem Grows.refl (db : Db) : Grows db db := fun _ h => h

theorem Grows.trans {db db' db'' : Db} (h : Grows db db') (h' : Grows db' db'') : Grows db db'' :=
  fun id hid => h' id (h id hid)

/-- The program looks at the store until it gives up or writes. -/
inductive Pending : Db → Tx Error Db Unit → Prop
  | ret {db : Db} (r : Except Error Unit) : Pending db (.ret r)
  | insertUser {db : Db} (u : User) : Pending db (insertUser u)
  | insertOrganization {db : Db} (o : Organization) : Pending db (insertOrganization o)
  | putOrganization {db : Db} (o : Organization) (h : (db.organizations.get o.id).isSome) :
    Pending db (putOrganization o)
  | look {db : Db} (next : Option Db → Tx Error Db Unit)
    (h : ∀ s, Grows db s → Pending s (next (some s))) : Pending db (.step id next)

theorem Pending.mono {db db' : Db} {p : Tx Error Db Unit} (h : Pending db p) (hg : Grows db db') :
    Pending db' p := by
  cases h with
  | ret r => exact .ret r
  | insertUser u => exact .insertUser u
  | insertOrganization o => exact .insertOrganization o
  | putOrganization o h => exact .putOrganization o (hg _ h)
  | look next h => exact .look next fun s hs => h s (hg.trans hs)

theorem pending_program (db : Db) (ctx : Context) : ∀ call : WriteCall, Pending db (call.program ctx)
  | .addUser u => by
    refine .look _ fun s _ => ?_
    cases h : findLogin s u.name u.provider u.scheme with
    | none =>
      simp only [h]
      exact .insertUser u
    | some usr =>
      simp only [h]
      exact .ret _
  | .addOrganization o => by
    refine .look _ fun s _ => ?_
    cases h : findName s o.name with
    | none =>
      simp only [h]
      exact .insertOrganization o
    | some org =>
      simp only [h]
      exact .ret _
  | .updateOrganization o => by
    refine .look _ fun s _ => ?_
    cases h : s.organizations.get o.id with
    | none =>
      simp only [h]
      exact .ret _
    | some org =>
      have hstored : (s.organizations.get o.id).isSome := by rw [h, Option.isSome_some]
      simp only [h]
      refine Eq.mpr (congrArg (Pending s) (Tx.ret_ok_bind org _)) ?_
      by_cases hname : o.name = org.name
      · rw [if_neg (not_not.mpr hname)]
        exact .putOrganization o hstored
      · rw [if_pos hname]
        refine .look _ fun s' hs' => ?_
        cases hfind : findName s' o.name with
        | none =>
          simp only [hfind]
          exact .putOrganization o (hs' _ hstored)
        | some x =>
          simp only [hfind]
          exact .ret _

/-! ### What a transaction does to a store of unique records -/

section Step

variable {db : Db} {u : User} {o : Organization}

theorem unique_insertUser (hdb : Unique db) (hi : db.users.Issued) :
    Unique ((insertUser u).run db).2 ↔ findLogin db u.name u.provider u.scheme = none := by
  have hput := Bucket.Issued.uniqueBy_put_next_iff (r := { u with id := db.users.seq + 1 }) hi hdb.users rfl
  rw [UsersStore.findLogin_none]
  exact ⟨fun h => hput.mp h.users, fun h => ⟨hput.mpr h, hdb.organizations⟩⟩

theorem unique_insertOrganization (hdb : Unique db) (hi : db.organizations.Issued) :
    Unique ((insertOrganization o).run db).2 ↔ findName db o.name = none := by
  have hput := Bucket.Issued.uniqueBy_put_next_iff (r := { o with id := Nat.repr (db.organizations.seq + 1) })
    hi hdb.organizations rfl
  rw [OrganizationsStore.findName_none]
  exact ⟨fun h => hput.mp h.organizations, fun h => ⟨hdb.users, hput.mpr h⟩⟩

theorem unique_putOrganization (hdb : Unique db) (ho : ¬ blank o.id) :
    Unique ((putOrganization o).run db).2 ↔
      (∃ org, db.organizations.get o.id = some org ∧ o.name = org.name) ∨ findName db o.name = none := by
  have hput := Bucket.uniqueBy_put_iff hdb.organizations ho
  rw [OrganizationsStore.findName_none]
  constructor
  · intro h
    have hother := hput.mp h.organizations
    by_cases hname : ∃ y ∈ db.organizations.recs, y.name = o.name
    · obtain ⟨y, hy, heq⟩ := hname
      have hk : key y = key o := by
        by_contra hne
        exact hother y hy hne heq
      exact .inl ⟨y, Bucket.get_eq_some.mpr ⟨hy, hk⟩, heq.symm⟩
    · exact .inr fun y hy heq => hname ⟨y, hy, heq⟩
  · intro h
    refine ⟨hdb.users, ?_⟩
    rcases h with ⟨org, hget, hname⟩ | hnone
    · exact hdb.organizations.put_of_get hget hname
    · exact hput.mpr fun y hy _ => hnone y hy

end Step

/-! ### Runs -/

variable {ι : Type} [DecidableEq ι]

/-- What every run of the calls keeps: the stored numbers come from the
sequences, and every program is on its way to at most one write. -/
structure Ready (c : Tx.Config ι Error Db Unit) : Prop where
  users : c.store.users.Issued
  organizations : c.store.organizations.Issued
  pending : ∀ i, Pending c.store (c.procs i)

variable {c : Tx.Config ι Error Db Unit} {i : ι}

/-- A write, where it is the next transaction of a program. -/
theorem step_insertUser {u : User} (h : c.procs i = insertUser u) :
    (c.step i).store = ((insertUser u).run c.store).2 ∧ (c.step i).procs i = .ret (.ok ()) :=
  ⟨Tx.Config.step_store h, Tx.Config.step_procs_self h⟩

theorem step_insertOrganization {o : Organization} (h : c.procs i = insertOrganization o) :
    (c.step i).store = ((insertOrganization o).run c.store).2 ∧ (c.step i).procs i = .ret (.ok ()) :=
  ⟨Tx.Config.step_store h, Tx.Config.step_procs_self h⟩

theorem step_putOrganization {o : Organization} (h : c.procs i = putOrganization o) :
    (c.step i).store = ((putOrganization o).run c.store).2 ∧ (c.step i).procs i = .ret (.ok ()) :=
  ⟨Tx.Config.step_store h, Tx.Config.step_procs_self h⟩

/-- Storing an organization loses none. -/
theorem grows_put {db db' : Db} {b : Bucket Organization} {o : Organization}
    (hb : ∀ id, b.get id = db.organizations.get id) (h : db'.organizations = b.put o) : Grows db db' := by
  intro id hid
  rw [h]
  by_cases hk : id = o.id
  · by_cases ho : blank (key o)
    · rwa [Bucket.put, dif_pos ho, hb]
    · rw [hk, ← key_organization, Bucket.get_put_self ho, Option.isSome_some]
  · rwa [Bucket.get_put_ne hk, hb]

/-- The other programs are still on their way when the organizations grow. -/
theorem Ready.of_step {c : Tx.Config ι Error Db Unit} (hc : Ready c) (hg : Grows c.store (c.step i).store)
    (hu : (c.step i).store.users.Issued) (ho : (c.step i).store.organizations.Issued)
    (hi : Pending (c.step i).store ((c.step i).procs i)) : Ready (c.step i) := by
  refine ⟨hu, ho, fun j => ?_⟩
  by_cases hj : j = i
  · rw [hj]
    exact hi
  · rw [Tx.Config.step_procs_ne hj]
    exact (hc.pending j).mono hg

theorem Ready.step (hc : Ready c) (i : ι) : Ready (c.step i) := by
  have hpend := hc.pending i
  generalize hp : c.procs i = p at hpend
  cases hpend with
  | ret r => rwa [Tx.Config.step_of_ret hp]
  | insertUser u =>
    obtain ⟨hstore, hret⟩ := step_insertUser hp
    refine hc.of_step ?_ ?_ ?_ ?_
    · rw [hstore]
      exact Grows.refl _
    · rw [hstore]
      exact hc.users.put_next rfl
    · rw [hstore]
      exact hc.organizations
    · rw [hret]
      exact .ret _
  | insertOrganization o =>
    obtain ⟨hstore, hret⟩ := step_insertOrganization hp
    refine hc.of_step ?_ ?_ ?_ ?_
    · rw [hstore]
      exact grows_put (fun _ => Bucket.get_nextSequence) rfl
    · rw [hstore]
      exact hc.users
    · rw [hstore]
      exact hc.organizations.put_next rfl
    · rw [hret]
      exact .ret _
  | putOrganization o h =>
    obtain ⟨hstore, hret⟩ := step_putOrganization hp
    obtain ⟨org, horg⟩ := Option.isSome_iff_exists.mp h
    refine hc.of_step ?_ ?_ ?_ ?_
    · rw [hstore]
      exact grows_put (fun _ => rfl) rfl
    · rw [hstore]
      exact hc.users
    · rw [hstore]
      exact hc.organizations.put_of_get horg
    · rw [hret]
      exact .ret _
  | look next h =>
    have hstore : (c.step i).store = c.store := Tx.Config.step_store hp
    refine hc.of_step ?_ ?_ ?_ ?_
    · rw [hstore]
      exact Grows.refl _
    · rw [hstore]
      exact hc.users
    · rw [hstore]
      exact hc.organizations
    · rw [Tx.Config.step_procs_self hp, hstore]
      exact h _ (Grows.refl _)

/-- One transaction keeps users and organization names unique if and only if the
check of its call would pass now. -/
theorem unique_step_iff (hc : Ready c) (hu : Unique c.store) (i : ι) :
    Unique (c.step i).store ↔ CheckHolds c.store (c.procs i) := by
  constructor
  · intro h
    refine ⟨fun u hp => ?_, fun o hp => ?_, fun o hp ho => ?_⟩
    · rw [(step_insertUser hp).1] at h
      exact (unique_insertUser hu hc.users).mp h
    · rw [(step_insertOrganization hp).1] at h
      exact (unique_insertOrganization hu hc.organizations).mp h
    · rw [(step_putOrganization hp).1] at h
      exact (unique_putOrganization hu ho).mp h
  · intro h
    have hpend := hc.pending i
    generalize hp : c.procs i = p at hpend h
    cases hpend with
    | ret r => rwa [Tx.Config.step_of_ret hp]
    | insertUser u =>
      rw [(step_insertUser hp).1]
      exact (unique_insertUser hu hc.users).mpr (h.addUser u rfl)
    | insertOrganization o =>
      rw [(step_insertOrganization hp).1]
      exact (unique_insertOrganization hu hc.organizations).mpr (h.addOrganization o rfl)
    | putOrganization o hstored =>
      have ho : ¬ blank o.id := fun hb => by simp [Bucket.get_blank hb] at hstored
      rw [(step_putOrganization hp).1]
      exact (unique_putOrganization hu ho).mpr (h.updateOrganization o rfl ho)
    | look next hnext =>
      have hstore : (c.step i).store = c.store := Tx.Config.step_store hp
      rw [hstore]
      exact hu

/-- Of any number of calls with their transactions interleaved, users and
organization names are unique after every transaction if and only if each
transaction finds the store such that the check of its call would pass. -/
theorem unique_run_iff (calls : ι → WriteCall) (ctxs : ι → Context) (db : Db) (hdb : Unique db)
    (husers : db.users.Issued) (horganizations : db.organizations.Issued) (sched : List ι) :
    let c : Tx.Config ι Error Db Unit := ⟨fun i => (calls i).program (ctxs i), db⟩
    (∀ pre, pre <+: sched → Unique (c.run pre).store) ↔
      ∀ pre i, pre ++ [i] <+: sched → CheckHolds (c.run pre).store ((c.run pre).procs i) := by
  intro c
  have hready : Ready c := ⟨husers, horganizations, fun i => pending_program db (ctxs i) (calls i)⟩
  exact foldl_keeps_iff (f := Tx.Config.step) (P := fun c => Unique c.store) (fun _ i hc => hc.step i)
    (fun _ i hc hu => unique_step_iff hc hu i) hready hdb sched

/-- Two requests to add the same user. -/
def twoAdds : Tx.Config Bool Error Db Unit :=
  ⟨fun _ => (WriteCall.addUser ⟨0, "alice", [], "github", "oauth2", false⟩).program {}, Db.empty⟩

/-- Each looks for the user before the other one has stored it. -/
theorem user_added_twice : ¬ Unique (twoAdds.run [false, true, false, true]).store := by decide

/-- Undisturbed, a request finds that its check still passes when it writes. -/
theorem unique_run_iff_example :
    CheckHolds (twoAdds.run [false]).store ((twoAdds.run [false]).procs false) := by
  refine (unique_run_iff (fun _ => _) (fun _ => {}) Db.empty (by decide) .empty .empty [false, false]).mp ?_
    [false] false (List.prefix_refl _)
  intro pre hpre
  have hmem := (List.mem_inits _ _).mpr hpre
  simp only [List.inits, List.map_cons, List.map_nil, List.mem_cons, List.not_mem_nil, or_false] at hmem
  rcases hmem with rfl | rfl | rfl
  · decide
  · decide
  · decide

end Bolt
end Chronograf
