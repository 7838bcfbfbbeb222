/-
# The servers store

`bolt/servers.go`. One server of the whole bucket is active: the one added
last, until another is added or updated to be it.
-/
import Chronograf.Bolt.Client

namespace Chronograf
namespace Bolt
namespace ServersStore

/-- The Active flag off on every server. -/
def resetActiveServer (b : Bucket Server) : Bucket Server :=
  b.sweep (·.active) fun other => { other with active := false }

def txAdd (b : Bucket Server) (src : Server) : Server × Bucket Server :=
  let b := b.nextSequence
  let src := { src with id := b.seq }
  let b := resetActiveServer b
  let src := { src with active := true }
  (src, b.put src)

def txUpdate (b : Bucket Server) (src : Server) : Except Error (Bucket Server) :=
  match b.get src.id with
  | none => .error .errServerNotFound
  | some _ =>
    let b := if src.active then resetActiveServer b else b
    .ok (b.put src)

def all (_ : Context) : Tx Error Db (List Server) := Db.view fun db => .ok db.servers.recs

def add (_ : Context) (src : Server) : Tx Error Db Server := Db.update fun db =>
  let (src, b) := txAdd db.servers src
  .ok (src, { db with servers := b })

def delete (_ : Context) (src : Server) : Tx Error Db Unit := Db.update fun db =>
  .ok ((), { db with servers := db.servers.delete src.id })

def get (_ : Context) (id : ℤ) : Tx Error Db Server := Db.view fun db =>
  match db.servers.get id with
  | none => .error .errServerNotFound
  | some src => .ok src

def update (_ : Context) (src : Server) : Tx Error Db Unit := Db.update fun db => do
  let b ← txUpdate db.servers src
  .ok ((), { db with servers := b })

/-! ### What a call leaves in the bucket -/

section Specs

variable {b : Bucket Server} {src target : Server} {k : ℤ}

/-- A server without the Active flag. -/
def inactive (s : Server) : Server := { s with active := false }

theorem get_resetActiveServer : (resetActiveServer b).get k = (b.get k).map inactive := by
  have hkey : ∀ s : Server, key (inactive s) = key s := fun _ => rfl
  show (b.sweep (·.active) inactive).get k = _
  rw [Bucket.get_sweep hkey]
  congr 1
  funext r
  split
  · rfl
  · rename_i h
    rw [inactive]
    cases r
    simp_all

theorem txAdd_fst : (txAdd b src).1 = { src with id := ofSeq (b.seq + 1), active := true } := rfl

/-- The new server is the active one. -/
theorem get_txAdd : (txAdd b src).2.get k =
    if k = ofSeq (b.seq + 1) then some { src with id := ofSeq (b.seq + 1), active := true }
    else (b.get k).map inactive := by
  unfold txAdd
  simp only [Bucket.nextSequence_seq]
  rw [Bucket.get_put (by simp), get_resetActiveServer, Bucket.get_nextSequence]
  simp only [key_server, ofSeq_int]

theorem txUpdate_of_none (h : b.get src.id = none) : txUpdate b src = .error .errServerNotFound := by
  unfold txUpdate; rw [h]

/-- Updating a stored server puts it in its place; if it is active, no other one is. -/
theorem txUpdate_of_some (h : b.get src.id = some target) :
    ∃ b', txUpdate b src = .ok b' ∧ ∀ k, b'.get k =
      if k = src.id then some src else if src.active then (b.get k).map inactive else b.get k := by
  unfold txUpdate
  rw [h]
  refine ⟨_, rfl, fun k => ?_⟩
  rw [Bucket.get_put (by simp), key_server]
  congr 1
  split
  · exact get_resetActiveServer
  · rfl

end Specs

end ServersStore

/-- `bolt.ServersStore` as a `chronograf.ServersStore`. -/
def serversStore : Chronograf.ServersStore Db where
  all := ServersStore.all
  add := ServersStore.add
  delete := ServersStore.delete
  get := ServersStore.get
  update := ServersStore.update

end Bolt
end Chronograf
