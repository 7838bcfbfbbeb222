/-
# The users store

`bolt/users.go`. Adding a user looks for its login in one transaction and
stores it in another; updating and deleting look for its ID first in the same
way.
-/
import Chronograf.Bolt.Client

namespace Chronograf
namespace Bolt
namespace UsersStore

/-- The user of this name, provider and scheme that is listed first. -/
def findLogin (db : Db) (name provider scheme : String) : Option User :=
  db.users.recs.find? fun u => u.name = name && u.provider = provider && u.scheme = scheme

/-- The user with the ID. -/
def getID (id : ℕ) : Tx Error Db User := Db.view fun db =>
  match db.users.get id with
  | none => .error .errUserNotFound
  | some u => .ok u

/-- By ID if the query has one, else by name, provider and scheme. -/
def get (_ : Context) (q : UserQuery) : Tx Error Db User :=
  match q.id, q.name, q.provider, q.scheme with
  | some id, _, _, _ => getID id
  | none, some name, some provider, some scheme => Db.view fun db =>
    match findLogin db name provider scheme with
    | none => .error .errUserNotFound
    | some user => .ok user
  | _, _, _, _ => Tx.fail (.errorf "must specify either ID, or Name, Provider, and Scheme in UserQuery")

def userExists (ctx : Context) (u : User) : Tx Error Db Bool := do
  match ← (get ctx { name := u.name, provider := u.provider, scheme := u.scheme }).attempt with
  | .error .errUserNotFound => pure false
  | .error err => Tx.fail err
  | .ok _ => pure true

/-- The transaction that stores a new user, under the next ID. -/
def insert (u : User) : Tx Error Db User := Db.update fun db =>
  let b := db.users.nextSequence
  let u := { u with id := b.seq }
  .ok (u, { db with users := b.put u })

/-- The transaction that stores a user under the ID it has. -/
def put (u : User) : Tx Error Db Unit := Db.update fun db => .ok ((), { db with users := db.users.put u })

def add (ctx : Context) (u : User) : Tx Error Db User := do
  if ← userExists ctx u then Tx.fail .errUserAlreadyExists
  else insert u

def delete (_ : Context) (u : User) : Tx Error Db Unit := do
  let _ ← getID u.id
  Db.update fun db => .ok ((), { db with users := db.users.delete u.id })

def update (_ : Context) (u : User) : Tx Error Db Unit := do
  let _ ← getID u.id
  put u

def all (_ : Context) : Tx Error Db (List User) := Db.view fun db => .ok db.users.recs

def num (_ : Context) : Tx Error Db ℕ := Db.view fun db => .ok db.users.recs.length

/-! ### What a call reads and leaves -/

section Specs

variable (ctx : Context) {db : Db} {u usr : User} {id : ℕ} {name provider scheme : String}

theorem findLogin_some (h : findLogin db name provider scheme = some usr) :
    usr ∈ db.users.recs ∧ usr.login = (name, provider, scheme) := by
  refine ⟨List.mem_of_find?_eq_some h, ?_⟩
  have hp := List.find?_some h
  simp only [Bool.and_eq_true, decide_eq_true_eq] at hp
  rw [User.login, hp.1.1, hp.1.2, hp.2]

theorem findLogin_none :
    findLogin db name provider scheme = none ↔ ∀ u ∈ db.users.recs, u.login ≠ (name, provider, scheme) := by
  unfold findLogin
  rw [List.find?_eq_none]
  simp [User.login, and_assoc]

theorem run_getID : (getID id).run db =
    (match db.users.get id with
      | some u => .ok u
      | none => .error .errUserNotFound, db) := by
  rw [getID, Db.run_view]
  cases db.users.get id <;> rfl

theorem run_get_login : (get ctx { name := name, provider := provider, scheme := scheme }).run db =
    (match findLogin db name provider scheme with
      | some u => .ok u
      | none => .error .errUserNotFound, db) := by
  show (Db.view _).run db = _
  rw [Db.run_view]
  cases findLogin db name provider scheme <;> rfl

/-- Looking a user up changes nothing. -/
theorem run_get_snd (q : UserQuery) (db : Db) : ((get ctx q).run db).2 = db := by
  obtain ⟨id, name, provider, scheme⟩ := q
  cases id <;> cases name <;> cases provider <;> cases scheme <;> rfl

/-- What a lookup finds is stored. -/
theorem mem_of_get (q : UserQuery) (h : ((get ctx q).run db).1 = .ok u) : u ∈ db.users.recs := by
  obtain ⟨id, name, provider, scheme⟩ := q
  cases id with
  | some id =>
    have hget : ((getID id).run db).1 = .ok u := h
    rw [run_getID] at hget
    cases hu : db.users.get id with
    | none => rw [hu] at hget; cases hget
    | some usr =>
      rw [hu] at hget
      obtain rfl := Except.ok.inj hget
      exact (Bucket.get_some hu).1
  | none =>
    cases name with
    | none => cases h
    | some name =>
      cases provider with
      | none => cases h
      | some provider =>
        cases scheme with
        | none => cases h
        | some scheme =>
          rw [run_get_login] at h
          cases hu : findLogin db name provider scheme with
          | none => rw [hu] at h; cases h
          | some usr =>
            rw [hu] at h
            obtain rfl := Except.ok.inj h
            exact (findLogin_some hu).1

theorem run_userExists : (userExists ctx u).run db =
    (.ok (findLogin db u.name u.provider u.scheme).isSome, db) := by
  unfold userExists
  rw [Tx.run_bind, Tx.run_attempt, run_get_login]
  cases findLogin db u.name u.provider u.scheme <;> rfl

theorem run_put : (put u).run db = (.ok (), { db with users := db.users.put u }) := rfl

/-- A login that is there is not added again. -/
theorem run_add_of_some (h : findLogin db u.name u.provider u.scheme = some usr) :
    (add ctx u).run db = (.error .errUserAlreadyExists, db) := by
  unfold add
  rw [Tx.run_bind, run_userExists ctx, h]
  rfl

/-- A new login is added under the next ID. -/
theorem run_add_of_none (h : findLogin db u.name u.provider u.scheme = none) :
    (add ctx u).run db = (.ok { u with id := db.users.seq + 1 },
      { db with users := db.users.nextSequence.put { u with id := db.users.seq + 1 } }) := by
  unfold add
  rw [Tx.run_bind, run_userExists ctx, h]
  rfl

theorem run_update_of_some (h : db.users.get u.id = some usr) :
    (update ctx u).run db = (.ok (), { db with users := db.users.put u }) := by
  unfold update
  rw [Tx.run_bind, run_getID, h]
  rfl

theorem run_update_of_none (h : db.users.get u.id = none) :
    (update ctx u).run db = (.error .errUserNotFound, db) := by
  unfold update
  rw [Tx.run_bind, run_getID, h]

theorem run_delete_of_some (h : db.users.get u.id = some usr) :
    (delete ctx u).run db = (.ok (), { db with users := db.users.delete u.id }) := by
  unfold delete
  rw [Tx.run_bind, run_getID, h]
  rfl

theorem run_delete_of_none (h : db.users.get u.id = none) :
    (delete ctx u).run db = (.error .errUserNotFound, db) := by
  unfold delete
  rw [Tx.run_bind, run_getID, h]

end Specs

end UsersStore

/-- `bolt.UsersStore` as a `chronograf.UsersStore`. -/
def usersStore : Chronograf.UsersStore Db where
  all := UsersStore.all
  add := UsersStore.add
  delete := UsersStore.delete
  get := UsersStore.get
  update := UsersStore.update
  num := UsersStore.num

@[simp] theorem usersStore_all : usersStore.all = UsersStore.all := rfl
@[simp] theorem usersStore_add : usersStore.add = UsersStore.add := rfl
@[simp] theorem usersStore_delete : usersStore.delete = UsersStore.delete := rfl
@[simp] theorem usersStore_get : usersStore.get = UsersStore.get := rfl
@[simp] theorem usersStore_update : usersStore.update = UsersStore.update := rfl
@[simp] theorem usersStore_num : usersStore.num = UsersStore.num := rfl

end Bolt
end Chronograf
