/-
# The mappings and configuration stores

`bolt/mapping.go`, `bolt/config.go` and `bolt/org_config.go`. A mapping is
stored by `Update` whether or not one was there. The configuration is one
record; each organization has one of its own, made when it is first asked for.
-/
import Chronograf.Bolt.Client

namespace Chronograf
namespace Bolt
namespace MappingsStore

def add (_ : Context) (o : Mapping) : Tx Error Db Mapping := Db.update fun db =>
  let b := db.mappings.nextSequence
  let o := { o with id := Nat.repr b.seq }
  .ok (o, { db with mappings := b.put o })

def all (_ : Context) : Tx Error Db (List Mapping) := Db.view fun db => .ok db.mappings.recs

def get (_ : Context) (id : String) : Tx Error Db Mapping := Db.view fun db =>
  match db.mappings.get id with
  | none => .error .errMappingNotFound
  | some o => .ok o

def delete (ctx : Context) (o : Mapping) : Tx Error Db Unit := do
  let _ ← get ctx o.id
  Db.update fun db => .ok ((), { db with mappings := db.mappings.delete o.id })

/-- Bolt refuses a blank key. -/
def update (_ : Context) (o : Mapping) : Tx Error Db Unit := Db.update fun db =>
  if o.id = "" then .error (.errorf "key required")
  else .ok ((), { db with mappings := db.mappings.put o })

end MappingsStore

/-- `bolt.MappingsStore` as a `chronograf.MappingsStore`. -/
def mappingsStore : Chronograf.MappingsStore Db where
  all := MappingsStore.all
  add := MappingsStore.add
  delete := MappingsStore.delete
  get := MappingsStore.get
  update := MappingsStore.update

namespace ConfigStore

def get (_ : Context) : Tx Error Db Config := Db.view fun db =>
  match db.config with
  | none => .error .errConfigNotFound
  | some cfg => .ok cfg

def update (_ : Context) (cfg : Config) : Tx Error Db Unit := Db.update fun db =>
  .ok ((), { db with config := some cfg })

end ConfigStore

/-- `bolt.ConfigStore` as a `chronograf.ConfigStore`. -/
def configStore : Chronograf.ConfigStore Db where
  get := ConfigStore.get
  update := ConfigStore.update

namespace OrganizationConfigStore

private def column (name : String) (position : ℤ) (encodings : List ColumnEncoding) : LogViewerColumn :=
  ⟨name, position, encodings⟩

def newOrganizationConfig (orgID : String) : OrganizationConfig where
  organizationID := orgID
  logViewer := ⟨[
    column "time" 0 [{ type := "visibility", value := "hidden" }],
    column "severity" 1 [
      { type := "visibility", value := "visible" },
      { type := "label", value := "icon" },
      { type := "label", value := "text" },
      { type := "color", name := "emerg", value := "ruby" },
      { type := "color", name := "alert", value := "fire" },
      { type := "color", name := "crit", value := "curacao" },
      { type := "color", name := "err", value := "tiger" },
      { type := "color", name := "warning", value := "pineapple" },
      { type := "color", name := "notice", value := "rainforest" },
      { type := "color", name := "info", value := "star" },
      { type := "color", name := "debug", value := "wolf" }],
    column "timestamp" 2 [{ type := "visibility", value := "visible" }],
    column "message" 3 [{ type := "visibility", value := "visible" }],
    column "facility" 4 [{ type := "visibility", value := "visible" }],
    column "procid" 5 [
      { type := "visibility", value := "visible" },
      { type := "displayName", value := "Proc ID" }],
    column "appname" 6 [
      { type := "visibility", value := "visible" },
      { type := "displayName", value := "Application" }],
    column "host" 7 [{ type := "visibility", value := "visible" }]]⟩

def findOrCreate (_ : Context) (orgID : String) : Tx Error Db OrganizationConfig := Db.update fun db =>
  match db.organizationConfigs.get orgID with
  | some c => .ok (c, db)
  | none =>
    if orgID = "" then .error (.errorf "key required")
    else
      let c := newOrganizationConfig orgID
      .ok (c, { db with organizationConfigs := db.organizationConfigs.put c })

def put (_ : Context) (c : OrganizationConfig) : Tx Error Db Unit := Db.update fun db =>
  if c.organizationID = "" then .error (.errorf "key required")
  else .ok ((), { db with organizationConfigs := db.organizationConfigs.put c })

end OrganizationConfigStore

/-- `bolt.OrganizationConfigStore` as a `chronograf.OrganizationConfigStore`. -/
def organizationConfigStore : Chronograf.OrganizationConfigStore Db where
  findOrCreate := OrganizationConfigStore.findOrCreate
  put := OrganizationConfigStore.put

end Bolt
end Chronograf
