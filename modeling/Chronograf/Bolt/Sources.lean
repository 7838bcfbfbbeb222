/-
# The sources store

`bolt/sources.go`. One source of the whole bucket is the default: storing a
default one clears the flag of all others (`resetDefaultSource`), and deleting
it hands the flag on (`setRandomDefault`).
-/
import Chronograf.Bolt.Client

namespace Chronograf
namespace Bolt
namespace SourcesStore

/-- The Default flag off on every source. -/
def resetDefaultSource (b : Bucket Source) : Bucket Source :=
  b.sweep (·.default) fun other => { other with default := false }

/-- The end of `add`: the source under the next number. -/
def txAdd (b : Bucket Source) (src : Source) : Source × Bucket Source :=
  let b := b.nextSequence
  let src := { src with id := b.seq }
  let b := if src.default then resetDefaultSource b else b
  (src, b.put src)

def txUpdate (b : Bucket Source) (src : Source) : Except Error (Bucket Source) :=
  match b.get src.id with
  | none => .error .errSourceNotFound
  | some _ =>
    let b := if src.default then resetDefaultSource b else b
    .ok (b.put src)

/-- The first source that is not `id`, else the last one. -/
def locateOther (id : ℤ) : List Source → Option Source
  | [] => none
  | [other] => some other
  | other :: rest => if other.id ≠ id then some other else locateOther id rest

/-- If the source is the default, another one becomes it. The target is in the
bucket, so there always is one to pick. -/
def setRandomDefault (b : Bucket Source) (src : Source) : Except Error (Bucket Source) :=
  match b.get src.id with
  | none => .error .errSourceNotFound
  | some target =>
    if target.default then
      match locateOther target.id b.recs with
      | none => .ok b
      | some other => txUpdate b { other with default := true }
    else .ok b

def all (_ : Context) : Tx Error Db (List Source) := Db.view fun db => .ok db.sources.recs

/-- The first source added is the default. -/
def add (ctx : Context) (src : Source) : Tx Error Db Source := do
  let srcs ← all ctx
  let src := if srcs.length = 0 then { src with default := true } else src
  Db.update fun db =>
    let (src, b) := txAdd db.sources src
    .ok (src, { db with sources := b })

def delete (_ : Context) (src : Source) : Tx Error Db Unit := Db.update fun db => do
  let b ← setRandomDefault db.sources src
  .ok ((), { db with sources := b.delete src.id })

def get (_ : Context) (id : ℤ) : Tx Error Db Source := Db.view fun db =>
  match db.sources.get id with
  | none => .error .errSourceNotFound
  | some src => .ok src

def update (_ : Context) (src : Source) : Tx Error Db Unit := Db.update fun db => do
  let b ← txUpdate db.sources src
  .ok ((), { db with sources := b })

/-! ### What a call leaves in the bucket -/

section Specs

variable {b : Bucket Source} {src target : Source} {k : ℤ}

/-- A source without the Default flag. -/
def cleared (s : Source) : Source := { s with default := false }

theorem get_resetDefaultSource : (resetDefaultSource b).get k = (b.get k).map cleared := by
  have hkey : ∀ s : Source, key (cleared s) = key s := fun _ => rfl
  show (b.sweep (·.default) cleared).get k = _
  rw [Bucket.get_sweep hkey]
  congr 1
  funext r
  split
  · rfl
  · rename_i h
    rw [cleared]
    cases r
    simp_all

/-- What was under a key when a source is stored under another one: the flag
goes if the new source is the default. -/
def displaced (src : Source) (o : Option Source) : Option Source := if src.default then o.map cleared else o

theorem get_reset_if :
    (if src.default then resetDefaultSource b else b).get k = displaced src (b.get k) := by
  unfold displaced
  split
  · exact get_resetDefaultSource
  · rfl

theorem txAdd_fst : (txAdd b src).1 = { src with id := ofSeq (b.seq + 1) } := rfl

theorem get_txAdd : (txAdd b src).2.get k =
    if k = ofSeq (b.seq + 1) then some { src with id := ofSeq (b.seq + 1) }
    else displaced src (b.get k) := by
  unfold txAdd
  simp only [Bucket.nextSequence_seq]
  rw [Bucket.get_put (by simp)]
  have hreset : (if src.default = true then resetDefaultSource b.nextSequence else b.nextSequence).get k =
      displaced src (b.get k) := by
    rw [← Bucket.get_nextSequence]
    exact get_reset_if
  simp only [key_source, ofSeq_int, hreset]

theorem txUpdate_of_none (h : b.get src.id = none) : txUpdate b src = .error .errSourceNotFound := by
  unfold txUpdate; rw [h]

/-- Updating a stored source puts it in its place and displaces the others. -/
theorem txUpdate_of_some (h : b.get src.id = some target) :
    ∃ b', txUpdate b src = .ok b' ∧
      ∀ k, b'.get k = if k = src.id then some src else displaced src (b.get k) := by
  unfold txUpdate
  rw [h]
  refine ⟨_, rfl, fun k => ?_⟩
  rw [Bucket.get_put (by simp), get_reset_if, key_source]

/-- The first source other than `id`, which takes over when `id` goes. -/
def successor (b : Bucket Source) (id : ℤ) : Option Source := b.recs.find? fun s => s.id ≠ id

/-- What `locateOther` finds: the first source other than `id`, or, with no
other there, `id` itself. -/
theorem locateOther_eq (id : ℤ) : ∀ {l : List Source}, l ≠ [] → ∃ o ∈ l, locateOther id l = some o ∧
    (l.find? (fun s => s.id ≠ id) = some o ∨ l.find? (fun s => s.id ≠ id) = none ∧ o.id = id)
  | [o], _ => by
    refine ⟨o, by simp, rfl, ?_⟩
    by_cases h : o.id = id <;> simp [h]
  | o :: o' :: l, _ => by
    unfold locateOther
    by_cases h : o.id = id
    · obtain ⟨p, hp, heq, hfind⟩ := locateOther_eq id (l := o' :: l) (by simp)
      refine ⟨p, by simp [hp], by simp [h, heq], ?_⟩
      rwa [List.find?_cons_of_neg (by simp [h])]
    · exact ⟨o, by simp, by simp [h], by simp [h]⟩

/-- Deleting a stored source that is not the default only takes it away. -/
theorem run_delete_of_not_default (ctx : Context) {db : Db} (h : db.sources.get src.id = some target)
    (hd : target.default = false) :
    (delete ctx src).run db = (.ok (), { db with sources := db.sources.delete src.id }) := by
  refine Tx.run_update_ok ?_
  simp [setRandomDefault, h, hd, Bind.bind, Except.bind]

/-- Deleting the default source hands the flag to its successor, and takes it
from every other source. -/
theorem run_delete_of_default (ctx : Context) {db : Db} (h : db.sources.get src.id = some target)
    (hd : target.default = true) :
    ∃ b', (delete ctx src).run db = (.ok (), { db with sources := b' }) ∧
      ∀ k, b'.get k =
        if k = src.id then none
        else (db.sources.get k).map fun s => { s with default := successor db.sources src.id = some s } := by
  obtain ⟨hmem, hid⟩ := Bucket.get_some h
  rw [key_source] at hid
  obtain ⟨o, ho, hloc, hfind⟩ := locateOther_eq target.id (List.ne_nil_of_mem hmem)
  have hget : db.sources.get o.id = some o := Bucket.get_of_mem ho
  have hnew : db.sources.get { o with default := true }.id = some o := hget
  obtain ⟨b', hb', hspec⟩ := txUpdate_of_some hnew
  refine ⟨b'.delete src.id, Tx.run_update_ok ?_, fun k => ?_⟩
  · simp [setRandomDefault, h, hd, hloc, hb', Bind.bind, Except.bind]
  rw [Bucket.get_delete, hspec]
  by_cases hk : k = src.id
  · rw [if_pos hk, if_pos hk]
  rw [if_neg hk, if_neg hk]
  rw [hid] at hfind
  by_cases hko : k = o.id
  · -- the one that takes over: it is not the source that goes
    rw [if_pos hko, hko, hget]
    rcases hfind with hfind | ⟨-, hid'⟩
    · rw [successor, hfind]
      simp
    · exact absurd (hko.trans hid') hk
  · -- any other source is not the successor
    rw [if_neg hko]
    cases hgk : db.sources.get k with
    | none => simp [displaced]
    | some s =>
      have hsk : s.id = k := (Bucket.get_some hgk).2
      have hne : successor db.sources src.id ≠ some s := by
        rcases hfind with hfind | ⟨hfind, -⟩
        · rw [successor, hfind]
          intro hos
          rw [Option.some.injEq] at hos
          exact hko (by rw [hos, hsk])
        · rw [successor, hfind]
          exact nofun
      simp [displaced, cleared, hne]

theorem run_delete_of_none (ctx : Context) {db : Db} (h : db.sources.get src.id = none) :
    (delete ctx src).run db = (.error .errSourceNotFound, db) := by
  refine Tx.run_update_error ?_
  simp [setRandomDefault, h, Bind.bind, Except.bind]

end Specs

end SourcesStore

/-- `bolt.SourcesStore` as a `chronograf.SourcesStore`. -/
def sourcesStore : Chronograf.SourcesStore Db where
  all := SourcesStore.all
  add := SourcesStore.add
  delete := SourcesStore.delete
  get := SourcesStore.get
  update := SourcesStore.update

end Bolt
end Chronograf
