/-
# The database

The buckets of a bolt database (`bolt/client.go`) that the modelled stores
use, and the transactions on them.

Key definitions: `Db`, `Db.view`, `Db.update`, `Db.Issued`.
-/
import Chronograf.Bolt.Internal

namespace Chronograf

instance : Keyed Internal.Dashboard String := ⟨fun d => Int.repr d.id⟩

@[simp] theorem key_dashboard (d : Internal.Dashboard) : key d = Int.repr d.id := rfl

/-- The contents of a database. -/
structure Db where
  organizations : Bucket Organization
  users : Bucket User
  sources : Bucket Source
  servers : Bucket Server
  dashboards : Bucket Internal.Dashboard
  mappings : Bucket Mapping
  organizationConfigs : Bucket OrganizationConfig
  config : Option Config

namespace Db

/-- Every bucket new and nothing configured. -/
def empty : Db := ⟨.empty, .empty, .empty, .empty, .empty, .empty, .empty, none⟩

/-- A transaction that reads, `client.db.View`. -/
def view {α : Type} (f : Db → Except Error α) : Tx Error Db α := Tx.view .storage f

/-- A transaction that writes, `client.db.Update`. -/
def update {α : Type} (f : Db → Except Error (α × Db)) : Tx Error Db α := Tx.update .storage f

@[simp] theorem run_view {α : Type} (f : Db → Except Error α) (db : Db) : (view f).run db = (f db, db) := rfl

/-- The records of every bucket with a sequence were stored under numbers it
handed out. -/
structure Issued (db : Db) : Prop where
  organizations : db.organizations.Issued
  users : db.users.Issued
  sources : db.sources.Issued
  servers : db.servers.Issued
  dashboards : db.dashboards.Issued

end Db
end Chronograf
