/-
# The organizations store

`bolt/organizations.go`. Adding and renaming look for the name in one
transaction and write in another. Deleting an organization removes its record
first and then, through the organization's facades, what belongs to it.

Key definitions: `Bolt.OrganizationsStore.add`, `update`, `delete`;
`Db.opened`, the contents of a database that has just been created.
-/
import Chronograf.Bolt.Dashboards
import Chronograf.Bolt.Mappings
import Chronograf.Bolt.Servers
import Chronograf.Bolt.Sources
import Chronograf.Bolt.Users
import Chronograf.Organizations.Resources
import Chronograf.Organizations.Users

namespace Chronograf
namespace Bolt
namespace OrganizationsStore

def defaultOrganizationID : String := "default"
def defaultOrganizationName : String := "Default"
def defaultOrganizationRole : String := "member"

/-- Finds or creates the default organization, and the mapping of everybody to it. -/
def createDefault (_ : Context) : Tx Error Db Unit := Db.update fun db =>
  match db.organizations.get defaultOrganizationID with
  | some _ => .ok ((), db)
  | none =>
    let o : Organization := ⟨defaultOrganizationID, defaultOrganizationName, defaultOrganizationRole⟩
    let m : Mapping :=
      ⟨defaultOrganizationID, defaultOrganizationID, mappingWildcard, mappingWildcard, mappingWildcard⟩
    let db := { db with organizations := db.organizations.put o }
    match db.mappings.get defaultOrganizationID with
    | some _ => .ok ((), db)
    | none => .ok ((), { db with mappings := db.mappings.put m })

/-- Where there is no record, decoding it gives an organization with nothing set. -/
def defaultOrganization (_ : Context) : Tx Error Db Organization := Db.view fun db =>
  .ok ((db.organizations.get defaultOrganizationID).getD ⟨"", "", ""⟩)

def getID (id : String) : Tx Error Db Organization := Db.view fun db =>
  match db.organizations.get id with
  | none => .error .errOrganizationNotFound
  | some o => .ok o

/-- The organization of this name that is listed first. -/
def findName (db : Db) (name : String) : Option Organization :=
  db.organizations.recs.find? fun o => o.name = name

def get (_ : Context) (q : OrganizationQuery) : Tx Error Db Organization :=
  match q.id, q.name with
  | some id, _ => getID id
  | none, some name => Db.view fun db =>
    match findName db name with
    | none => .error .errOrganizationNotFound
    | some org => .ok org
  | none, none => Tx.fail (.errorf "must specify either ID, or Name in OrganizationQuery")

/-- Any other failure counts as a name that is taken. -/
def nameIsUnique (ctx : Context) (name : String) : Tx Error Db Bool := do
  match ← (get ctx { name := name }).attempt with
  | .error .errOrganizationNotFound => pure true
  | _ => pure false

/-- The transaction that stores a new organization, under the next ID. -/
def insert (o : Organization) : Tx Error Db Organization := Db.update fun db =>
  let b := db.organizations.nextSequence
  let o := { o with id := Nat.repr b.seq }
  .ok (o, { db with organizations := b.put o })

/-- The transaction that stores an organization under the ID it has. -/
def put (o : Organization) : Tx Error Db Unit := Db.update fun db =>
  .ok ((), { db with organizations := db.organizations.put o })

def add (ctx : Context) (o : Organization) : Tx Error Db Organization := do
  if ← nameIsUnique ctx o.name then insert o
  else Tx.fail .errOrganizationAlreadyExists

def all (_ : Context) : Tx Error Db (List Organization) := Db.view fun db => .ok db.organizations.recs

def update (ctx : Context) (o : Organization) : Tx Error Db Unit := do
  let org ← getID o.id
  if o.name ≠ org.name then
    if ← nameIsUnique ctx o.name then put o
    else Tx.fail .errOrganizationAlreadyExists
  else put o

/-- The transaction that removes the record of an organization. -/
def remove (id : String) : Tx Error Db Unit := Db.update fun db =>
  .ok ((), { db with organizations := db.organizations.delete id })

/-- Deletes, through the facade of the organization, everything a store lists there. -/
def deleteResources {ρ ι : Type} [Resource ρ ι] (s : ResourcesStore Db ρ ι) (ctx : Context) (orgID : String) :
    Tx Error Db Unit := do
  let store := Organizations.newResourcesStore s orgID
  let ds ← store.all ctx
  Tx.forEach ds (store.delete ctx)

/-- Takes from every user in the organization the roles it has there. -/
def deleteUsers (ctx : Context) (orgID : String) : Tx Error Db Unit := do
  let store := Organizations.newUsersStore usersStore orgID
  let users ← store.all ctx
  Tx.forEach users (store.delete ctx)

def deleteMappings (ctx : Context) (orgID : String) : Tx Error Db Unit := do
  let mappings ← MappingsStore.all ctx
  Tx.forEach mappings fun mapping => do
    if mapping.organization = orgID then MappingsStore.delete ctx mapping else pure ()

/-- The configuration of the organization stays. -/
def delete (ids : ℕ → String) (ctx : Context) (o : Organization) : Tx Error Db Unit := do
  if o.id = defaultOrganizationID then Tx.fail .errCannotDeleteDefaultOrganization
  else do
    let _ ← getID o.id
    remove o.id
    let ctx := ctx.withOrganization o.id
    deleteResources sourcesStore ctx o.id
    deleteResources serversStore ctx o.id
    deleteResources (dashboardsStore ids) ctx o.id
    deleteUsers ctx o.id
    deleteMappings ctx o.id

/-! ### What a call reads and leaves -/

section Specs

variable (ctx : Context) {db : Db} {o org : Organization} {id name : String}

theorem findName_none : findName db name = none ↔ ∀ o ∈ db.organizations.recs, o.name ≠ name := by
  unfold findName
  rw [List.find?_eq_none]
  simp

theorem run_getID : (getID id).run db =
    (match db.organizations.get id with
      | some o => .ok o
      | none => .error .errOrganizationNotFound, db) := by
  rw [getID, Db.run_view]
  cases db.organizations.get id <;> rfl

theorem run_get_name : (get ctx { name := name }).run db =
    (match findName db name with
      | some o => .ok o
      | none => .error .errOrganizationNotFound, db) := by
  show (Db.view _).run db = _
  rw [Db.run_view]
  cases findName db name <;> rfl

/-- Looking an organization up changes nothing. -/
theorem run_get_snd (q : OrganizationQuery) (db : Db) : ((get ctx q).run db).2 = db := by
  obtain ⟨id, name⟩ := q
  cases id <;> cases name <;> rfl

theorem run_nameIsUnique : (nameIsUnique ctx name).run db = (.ok (findName db name).isNone, db) := by
  unfold nameIsUnique
  rw [Tx.run_bind, Tx.run_attempt, run_get_name]
  cases findName db name <;> rfl

theorem run_put : (put o).run db = (.ok (), { db with organizations := db.organizations.put o }) := rfl

/-- A name that is taken is not added again. -/
theorem run_add_of_some (h : findName db o.name = some org) :
    (add ctx o).run db = (.error .errOrganizationAlreadyExists, db) := by
  unfold add
  rw [Tx.run_bind, run_nameIsUnique, h]
  rfl

/-- A new name is added under the next ID. -/
theorem run_add_of_none (h : findName db o.name = none) :
    (add ctx o).run db = (.ok { o with id := Nat.repr (db.organizations.seq + 1) },
      { db with organizations :=
        db.organizations.nextSequence.put { o with id := Nat.repr (db.organizations.seq + 1) } }) := by
  unfold add
  rw [Tx.run_bind, run_nameIsUnique, h]
  rfl

/-- `Update` is refused, or it stores the organization over the one with its ID,
which has the name or nobody has. -/
theorem update_cases (o : Organization) (db : Db) :
    (∃ e, (update ctx o).run db = (.error e, db)) ∨
    ∃ org, db.organizations.get o.id = some org ∧ (o.name = org.name ∨ findName db o.name = none) ∧
      (update ctx o).run db = (.ok (), { db with organizations := db.organizations.put o }) := by
  unfold update
  cases h : db.organizations.get o.id with
  | none =>
    refine .inl ⟨.errOrganizationNotFound, ?_⟩
    rw [Tx.run_bind, run_getID, h]
  | some org =>
    rw [Tx.run_bind, run_getID, h]
    by_cases hname : o.name = org.name
    · refine .inr ⟨org, rfl, .inl hname, ?_⟩
      simp only [hname, ne_eq, not_true, if_false]
      exact run_put
    · simp only [ne_eq, hname, not_false_iff, if_true]
      rw [Tx.run_bind, run_nameIsUnique]
      cases hfind : findName db o.name with
      | none => exact .inr ⟨org, rfl, .inr rfl, run_put⟩
      | some x => exact .inl ⟨.errOrganizationAlreadyExists, rfl⟩

end Specs

end OrganizationsStore

/-- `bolt.OrganizationsStore` as a `chronograf.OrganizationsStore`. -/
def organizationsStore (ids : ℕ → String) : Chronograf.OrganizationsStore Db where
  all := OrganizationsStore.all
  add := OrganizationsStore.add
  delete := OrganizationsStore.delete ids
  get := OrganizationsStore.get
  update := OrganizationsStore.update
  createDefault := OrganizationsStore.createDefault
  defaultOrganization := OrganizationsStore.defaultOrganization

end Bolt

namespace Db

/-- What `Client.Open` leaves in a new file: the default organization with its
mapping, and the configuration. -/
def opened : Db :=
  let db := ((Bolt.OrganizationsStore.createDefault {}).run empty).2
  ((Bolt.ConfigStore.update {} ⟨⟨false⟩⟩).run db).2

end Db
end Chronograf
