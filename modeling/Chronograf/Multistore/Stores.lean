/-
# Stores over stores

`multistore/sources.go` and `multistore/dashboards.go`: a store that tries the
stores it is made of one after the other, and `memdb/sources.go`, the store of
one source that `server/builders.go` puts in front. A store in the list is an
object with a state of its own (`Component`) that keeps a map from IDs to
records; any of its calls may fail at any time, whatever the map holds.

Key definitions: `KeepsMap`, `Component`, `Multistore.SourcesStore.all` and the
other methods, `Multistore.DashboardsStore.get`, `Memdb.component`, `build`.
-/
import Chronograf.Lib.Fallback
import Chronograf.Bolt.Dashboards
import Chronograf.Bolt.Sources

namespace Chronograf

instance : Keyed Dashboard ℤ := ⟨Dashboard.id⟩

/-- What the methods of a store that keeps a map do when they succeed; `records`
is the map. When they fail, they may do so for any reason. -/
structure KeepsMap {σ ρ ι : Type} [Keyed ρ ι] (store : ResourcesStore σ ρ ι) (records : σ → ι → Option ρ) : Prop where
  all_ok : ∀ {ctx s rs}, ((store.all ctx).run s).1 = .ok rs → ∀ r, r ∈ rs ↔ records s (key r) = some r
  get_ok : ∀ {ctx id s r}, ((store.get ctx id).run s).1 = .ok r → records s id = some r
  keyed : ∀ {s id r}, records s id = some r → key r = id
  add_ok : ∀ {ctx r s r'}, ((store.add ctx r).run s).1 = .ok r' → records ((store.add ctx r).run s).2 (key r') = some r'
  update_ok : ∀ {ctx r s}, ((store.update ctx r).run s).1 = .ok () →
    records ((store.update ctx r).run s).2 (key r) = some r
  delete_ok : ∀ {ctx r s}, ((store.delete ctx r).run s).1 = .ok () → records ((store.delete ctx r).run s).2 (key r) = none

/-- A store with its state. -/
structure Component (ρ ι : Type) [Keyed ρ ι] where
  State : Type
  store : ResourcesStore State ρ ι
  mapOf : State → ι → Option ρ
  keepsMap : KeepsMap store mapOf
  state : State

namespace Component

variable {ρ ι α : Type} [Keyed ρ ι]

/-- A method called on the store. -/
def call (op : ∀ {σ : Type}, ResourcesStore σ ρ ι → Tx Error σ α) (c : Component ρ ι) :
    Except Error α × Component ρ ι :=
  (((op c.store).run c.state).1, { c with state := ((op c.store).run c.state).2 })

def all (ctx : Context) : Component ρ ι → Except Error (List ρ) × Component ρ ι := call fun s => s.all ctx
def add (ctx : Context) (r : ρ) : Component ρ ι → Except Error ρ × Component ρ ι := call fun s => s.add ctx r
def delete (ctx : Context) (r : ρ) : Component ρ ι → Except Error Unit × Component ρ ι := call fun s => s.delete ctx r
def get (ctx : Context) (id : ι) : Component ρ ι → Except Error ρ × Component ρ ι := call fun s => s.get ctx id
def update (ctx : Context) (r : ρ) : Component ρ ι → Except Error Unit × Component ρ ι := call fun s => s.update ctx r

/-- What the store has under an ID now. -/
def records (c : Component ρ ι) (id : ι) : Option ρ := c.mapOf c.state id

end Component

namespace Multistore

open Fallback

section Methods

variable {ρ ι : Type} [Keyed ρ ι]

/-- The variables of the loop in `All`: `all`, `sourceSet`, `ok` and `err`. -/
structure Listing (ρ ι : Type) where
  all : List ρ
  set : List ι
  ok : Bool
  err : Option Error

def Listing.start : Listing ρ ι := ⟨[], [], false, none⟩

/-- A record whose ID has been seen before is passed over. -/
def Listing.add [DecidableEq ι] (l : Listing ρ ι) (r : ρ) : Listing ρ ι :=
  if key r ∈ l.set then l else { l with all := l.all ++ [r], set := l.set ++ [key r] }

/-- The body of the loop. -/
def Listing.next [DecidableEq ι] (l : Listing ρ ι) : Except Error (List ρ) → Listing ρ ι
  | .error e => { l with err := some e }
  | .ok rs => rs.foldl Listing.add { l with ok := true, err := none }

/-- What `All` returns; with no store in the list there is neither a list nor
an error. -/
def Listing.result (l : Listing ρ ι) : Except Error (List ρ) :=
  if l.ok then .ok l.all else
    match l.err with
    | none => .ok []
    | some e => .error e

def all [DecidableEq ι] (ctx : Context) (stores : List (Component ρ ι)) : Except Error (List ρ) × List (Component ρ ι) :=
  ((stores.foldl (fun (l : Listing ρ ι) c => l.next (c.all ctx).1) Listing.start).result, stores.map fun c => (c.all ctx).2)

/-- `return zero, err` -/
def orError {α : Type} (zero : α) : Except (Option Error) α → Except Error α
  | .ok a => .ok a
  | .error none => .ok zero
  | .error (some e) => .error e

/-- `return zero, nil` -/
def orNil {α : Type} (zero : α) : Except (Option Error) α → Except Error α
  | .ok a => .ok a
  | .error _ => .ok zero

/-- The error of the last store is not returned. -/
def add (zero : ρ) (ctx : Context) (r : ρ) (stores : List (Component ρ ι)) : Except Error ρ × List (Component ρ ι) :=
  (tryEach (Component.add ctx r) none stores).map (orNil zero) id

def delete (ctx : Context) (r : ρ) (stores : List (Component ρ ι)) : Except Error Unit × List (Component ρ ι) :=
  (tryEach (Component.delete ctx r) none stores).map (orError ()) id

/-- `last` is what is returned when no store has the record. -/
def get (last : Except (Option Error) ρ → Except Error ρ) (ctx : Context) (i : ι) (stores : List (Component ρ ι)) :
    Except Error ρ × List (Component ρ ι) :=
  (tryEach (Component.get ctx i) none stores).map last id

def update (ctx : Context) (r : ρ) (stores : List (Component ρ ι)) : Except Error Unit × List (Component ρ ι) :=
  (tryEach (Component.update ctx r) none stores).map (orError ()) id

end Methods

/-- The methods of a store over stores. -/
structure Methods (ρ ι : Type) [Keyed ρ ι] where
  all : Context → List (Component ρ ι) → Except Error (List ρ) × List (Component ρ ι)
  add : Context → ρ → List (Component ρ ι) → Except Error ρ × List (Component ρ ι)
  delete : Context → ρ → List (Component ρ ι) → Except Error Unit × List (Component ρ ι)
  get : Context → ι → List (Component ρ ι) → Except Error ρ × List (Component ρ ι)
  update : Context → ρ → List (Component ρ ι) → Except Error Unit × List (Component ρ ι)

/-- `chronograf.Source{}` -/
def noSource : Source :=
  { id := 0, name := "", type := "", username := "", password := "", sharedSecret := "", url := "", metaURL := "",
    insecureSkipVerify := false, default := false, telegraf := "", organization := "", role := "", defaultRP := "" }

/-- `chronograf.Dashboard{}` -/
def noDashboard : Dashboard := { id := 0, cells := [], templates := [], name := "", organization := "" }

/-- `multistore.SourcesStore` -/
def sourcesStore : Methods Source ℤ where
  all := all
  add := add noSource
  delete := delete
  get := get (orError noSource)
  update := update

/-- `multistore.DashboardsStore`: `Get` does not return the error of the last
store either. -/
def dashboardsStore : Methods Dashboard ℤ where
  all := all
  add := add noDashboard
  delete := delete
  get := get (orNil noDashboard)
  update := update

end Multistore

/-! ### The store of one source -/

namespace Memdb

/-- `memdb.SourcesStore`, its state the source it has. -/
def sourcesStore : SourcesStore (Option Source) where
  all _ := Tx.view .storage fun s => .ok s.toList
  add _ _ := Tx.fail (.errorf "In-memory SourcesStore does not support adding a Source")
  delete _ src := Tx.update .storage fun
    | some s => if s.id ≠ src.id then notFound src.id else .ok ((), none)
    | none => notFound src.id
  get _ id := Tx.view .storage fun
    | some s => if s.id ≠ id then notFound id else .ok s
    | none => notFound id
  update _ src := Tx.update .storage fun
    | some s => if s.id ≠ src.id then notFound src.id else .ok ((), some src)
    | none => notFound src.id
where
  notFound {α : Type} (id : ℤ) : Except Error α := .error (.errorf ("Unable to find Source with id " ++ Int.repr id))

/-- The source under its own ID. -/
def records (s : Option Source) (id : ℤ) : Option Source := s.filter fun s => s.id = id

theorem keepsMap : KeepsMap sourcesStore records where
  all_ok := by
    rintro ctx s rs h r
    obtain rfl : s.toList = rs := Except.ok.inj h
    rcases s with _ | s
    · simp [records]
    · simp only [Option.toList_some, List.mem_singleton, records, Option.filter_some, key_source]
      constructor
      · rintro rfl
        simp
      · intro h
        split at h
        · exact (Option.some.inj h).symm
        · cases h
  get_ok := by
    rintro ctx id (_ | s) r h
    · cases h
    · simp only [sourcesStore, Tx.run_view] at h
      split at h
      · cases h
      · rename_i hid
        obtain rfl := Except.ok.inj h
        simpa [records] using hid
  keyed := by
    intro s id r h
    simpa using (Option.filter_eq_some_iff.mp h).2
  add_ok := by
    intro ctx r s r' h
    cases h
  update_ok := by
    rintro ctx r (_ | s) h
    · cases h
    · by_cases hid : s.id = r.id
      · simp [sourcesStore, Tx.update, records, hid]
      · simp [sourcesStore, Tx.update, sourcesStore.notFound, hid, Except.map] at h
  delete_ok := by
    rintro ctx r (_ | s) h
    · cases h
    · by_cases hid : s.id = r.id
      · simp [sourcesStore, Tx.update, records, hid]
      · simp [sourcesStore, Tx.update, sourcesStore.notFound, hid, Except.map] at h

def component (s : Option Source) : Component Source ℤ where
  State := Option Source
  store := sourcesStore
  mapOf := records
  keepsMap := keepsMap
  state := s

end Memdb

/-! ### The sources of the server -/

namespace Bolt

/-- The sources in bolt are a map as well. -/
theorem sourcesStore_keepsMap : KeepsMap sourcesStore fun db id => db.sources.get id where
  all_ok := by
    intro ctx db rs h r
    obtain rfl : db.sources.recs = rs := Except.ok.inj h
    exact Bucket.mem_iff_get
  get_ok := by
    intro ctx id db r h
    simp only [sourcesStore, SourcesStore.get, Db.view, Tx.run_view] at h
    split at h
    · cases h
    · rename_i hget
      rw [hget, Except.ok.inj h]
  keyed h := (Bucket.get_some h).2
  add_ok := by
    intro ctx r db r' h
    obtain rfl := Except.ok.inj h
    simp only [sourcesStore, SourcesStore.add, SourcesStore.all, Db.view, Db.update, Tx.run_bind, Tx.run_view]
    exact SourcesStore.get_txAdd.trans (if_pos rfl)
  update_ok := by
    intro ctx r db h
    rcases hget : db.sources.get r.id with _ | target
    · have hrun := SourcesStore.txUpdate_of_none hget
      simp [sourcesStore, SourcesStore.update, Db.update, Tx.update, hrun, Bind.bind, Except.bind, Except.map] at h
    · obtain ⟨b', hb', hspec⟩ := SourcesStore.txUpdate_of_some hget
      have hrun : (sourcesStore.update ctx r).run db = (.ok (), { db with sources := b' }) := by
        refine Tx.run_update_ok ?_
        simp [hb', Bind.bind, Except.bind]
      rw [hrun]
      exact (hspec _).trans (if_pos rfl)
  delete_ok := by
    intro ctx r db h
    rcases hset : SourcesStore.setRandomDefault db.sources r with e | b
    · simp [sourcesStore, SourcesStore.delete, Db.update, Tx.update, hset, Bind.bind, Except.bind, Except.map] at h
    · have hrun : (sourcesStore.delete ctx r).run db = (.ok (), { db with sources := b.delete r.id }) := by
        refine Tx.run_update_ok ?_
        simp [hset, Bind.bind, Except.bind]
      rw [hrun]
      exact Bucket.get_delete.trans (if_pos rfl)

def sourcesComponent (db : Db) : Component Source ℤ where
  State := Db
  store := sourcesStore
  mapOf db id := db.sources.get id
  keepsMap := sourcesStore_keepsMap
  state := db

end Bolt

/-- `MultiSourceBuilder` -/
structure MultiSourceBuilder where
  influxDBURL : String
  influxDBUsername : String
  influxDBPassword : String

/-- `MultiSourceBuilder.Build`: the sources of the directory come last, and a
source given to the server on its command line comes first. -/
def MultiSourceBuilder.build (fs : MultiSourceBuilder) (db files : Component Source ℤ) : List (Component Source ℤ) :=
  if fs.influxDBURL ≠ "" then
    Memdb.component (some { Multistore.noSource with
      name := fs.influxDBURL
      type := "influx"
      username := fs.influxDBUsername
      password := fs.influxDBPassword
      url := fs.influxDBURL
      default := true }) :: [db, files]
  else [db, files]

/-- `MultiDashboardBuilder.Build` -/
def MultiDashboardBuilder.build (db files : Component Dashboard ℤ) : List (Component Dashboard ℤ) := [db, files]

end Chronograf
