/-
# The Kapacitor client

`Client` of the `kapacitor` package: how an alert rule becomes a task of a
Kapacitor server and is changed there. Every call of the vendored API client
(`ClientV1`) is one request to the server, so the operations are programs over
the server's tasks (`Tx`).

Key definitions: `ClientV1.Service`, `Client`, `newTask`, `Client.update`.
-/
import Chronograf.Kapacitor.Tickscripts
import Chronograf.Lib.Tx
import Mathlib.Logic.Function.Basic

namespace Chronograf
namespace Kapacitor

/-! ### The API client -/

namespace ClientV1

inductive TaskStatus
  | disabled
  | enabled
  deriving DecidableEq, Repr

def TaskStatus.string : TaskStatus → String
  | .disabled => "disabled"
  | .enabled => "enabled"

inductive TaskType
  | invalid
  | stream
  | batch
  deriving DecidableEq, Repr

def TaskType.string : TaskType → String
  | .invalid => "invalid"
  | .stream => "stream"
  | .batch => "batch"

def TaskType.unmarshalText (text : String) : Except Failure TaskType :=
  if text = "stream" then .ok .stream
  else if text = "batch" then .ok .batch
  else if text = "invalid" then .ok .invalid
  else .error (.error ("unknown TaskType " ++ text))

structure DBRP where
  database : String
  retentionPolicy : String
  deriving DecidableEq, Repr

structure Task where
  href : String
  id : String
  type : TaskType
  dbrps : List DBRP
  tickscript : Text
  status : TaskStatus
  executing : Bool
  error : String
  created : ℤ
  modified : ℤ
  lastEnabled : ℤ
  deriving DecidableEq

/-- Only the fields that do not have their default value are changed. -/
structure UpdateTaskOptions where
  type : TaskType := .invalid
  dbrps : List DBRP := []
  tickscript : Text := []
  status : Option TaskStatus := none

/-- The Kapacitor service: what a request to change a task does to it. -/
structure Service where
  patch : UpdateTaskOptions → Task → Task
  patch_status : ∀ opt t, (patch opt t).status = opt.status.getD t.status

/-- The tasks of a server, by their links. -/
abbrev Tasks := String → Option Task

/-- The error of a request that was not answered. -/
def unanswered : Failure := .error "no response"

def invalidLink : Failure := .error "invalid link \x7b\x7d"

def unknownTask : Failure := .error "unknown task"

variable (K : Service)

/-- `Client.Task` of the API. -/
def task (href : String) : Tx Failure Tasks Task :=
  if href = "" then Tx.fail invalidLink
  else Tx.view unanswered fun tasks => match tasks href with
    | some t => .ok t
    | none => .error unknownTask

/-- `Client.UpdateTask` of the API; it gives the task as it then is. -/
def updateTask (href : String) (opt : UpdateTaskOptions) : Tx Failure Tasks Task :=
  if href = "" then Tx.fail invalidLink
  else Tx.update unanswered fun tasks => match tasks href with
    | some t => .ok (K.patch opt t, Function.update tasks href (some (K.patch opt t)))
    | none => .error unknownTask

end ClientV1

open ClientV1 (TaskStatus TaskType Tasks UpdateTaskOptions)

/-! ### Tasks -/

structure DBRP where
  db : String
  rp : String
  deriving DecidableEq, Repr

/-- An alert rule with what a running task adds to it. -/
structure TaskRule (Nodes : Type) extends AlertRule Nodes where
  tickscript : Text
  type : String
  dbrps : List DBRP
  status : String
  executing : Bool
  error : String
  created : ℤ
  modified : ℤ
  lastEnabled : ℤ

structure Task (Nodes : Type) where
  id : String
  href : String
  hrefOutput : String
  rule : TaskRule Nodes

def hrefOutput (id : String) : String := "/kapacitor/v1/tasks/" ++ id ++ "/output"

variable {Nodes : Type}

/-- The rule of a task whose TICKscript is not one of an alert. -/
def unreversed (nodes : Nodes) (id : String) : AlertRule Nodes :=
  { id, query := none, every := "", alertNodes := nodes, message := "", details := "", trigger := "",
    triggerValues := ⟨"", "", "", "", "", ""⟩, name := id }

/-- A client of one server. -/
structure Client (Nodes : Type) where
  /-- `kapaClient` of the server's address and credentials. -/
  kapaClient : Except Failure Unit
  /-- The ticker's `Generate`. -/
  generate : AlertRule Nodes → Except Failure Text
  /-- `Reverse`, the rule of a TICKscript. -/
  reverse : Text → Option (AlertRule Nodes)
  /-- No alert handlers. -/
  noNodes : Nodes

/-- The client of `NewClient`, which generates TICKscripts as `Alert` does. -/
def newClient (K : Packages) (kapaClient : Except Failure Unit) (reverse : Text → Option (AlertRule K.Nodes))
    (noNodes : K.Nodes) : Client K.Nodes :=
  { kapaClient, generate := generate K, reverse, noNodes }

namespace Client

variable (c : Client Nodes)

def newTask (task : ClientV1.Task) : Task Nodes :=
  let rule := (c.reverse task.tickscript).getD (unreversed c.noNodes task.id)
  { id := task.id
    href := task.href
    hrefOutput := hrefOutput task.id
    rule :=
      { rule with
        id := task.id
        tickscript := task.tickscript
        type := task.type.string
        dbrps := task.dbrps.map fun d => ⟨d.database, d.retentionPolicy⟩
        status := task.status.string
        executing := task.executing
        error := task.error
        created := task.created
        modified := task.modified
        lastEnabled := task.lastEnabled } }

@[simp] theorem newTask_status (task : ClientV1.Task) : (c.newTask task).rule.status = task.status.string := rfl

variable (K : ClientV1.Service)

def updateStatus (href : String) (status : TaskStatus) : Tx Failure Tasks (Task Nodes) := do
  Tx.ofExcept c.kapaClient
  let task ← ClientV1.updateTask K href { status := some status }
  return c.newTask task

def disable (href : String) : Tx Failure Tasks (Task Nodes) := c.updateStatus K href .disabled

def enable (href : String) : Tx Failure Tasks (Task Nodes) := c.updateStatus K href .enabled

def status (href : String) : Tx Failure Tasks TaskStatus := do
  Tx.ofExcept c.kapaClient
  let task ← ClientV1.task href
  return task.status

def toTask (q : QueryConfig) : TaskType := if q.rawText.all (· = "") then .stream else .batch

/-- The task is disabled while it is updated, and enabled afterwards. -/
def updateFromQueryConfig (rule : TaskRule Nodes) (q : QueryConfig) : Except Failure UpdateTaskOptions := do
  let script ← c.generate rule.toAlertRule
  return { tickscript := script, status := some .disabled, type := toTask q,
           dbrps := [⟨q.database, q.retentionPolicy⟩] }

def updateFromTick (rule : TaskRule Nodes) : Except Failure UpdateTaskOptions := do
  let taskType ← (if rule.type ≠ "stream" then TaskType.unmarshalText rule.type else .ok .stream)
  return { tickscript := rule.tickscript, status := some .disabled, type := taskType,
           dbrps := rule.dbrps.map fun d => ⟨d.db, d.rp⟩ }

/-- The options of an update: those of a raw TICKscript for a rule without a query. -/
def updateOptions (rule : TaskRule Nodes) : Except Failure UpdateTaskOptions :=
  match rule.query with
  | some q => c.updateFromQueryConfig rule q
  | none => updateFromTick rule

/-- A task that was enabled is enabled again. -/
def reenable (href : String) (prevStatus : TaskStatus) : Tx Failure Tasks Unit :=
  if prevStatus = .enabled then do
    let _ ← c.enable K href
    return ()
  else return ()

def update (href : String) (rule : TaskRule Nodes) : Tx Failure Tasks (Task Nodes) := do
  Tx.ofExcept c.kapaClient
  let prevStatus ← c.status href
  let opt ← Tx.ofExcept (c.updateOptions rule)
  let task ← ClientV1.updateTask K href opt
  c.reenable K href prevStatus
  return c.newTask task

end Client

end Kapacitor
end Chronograf
