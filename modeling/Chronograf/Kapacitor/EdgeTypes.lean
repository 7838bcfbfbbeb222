/-
# The edge type of an alert rule

A TICKscript is read with an edge type, for a stream or for batches. Three places
decide it: the validation looks for the text `batch` in the script, the task is
given the type that the rule's raw text calls for, and `Reverse` takes a stream
always. They agree on the rules without a raw text whose script has no `batch` in
it, and on no others.

Key definitions: `newPipeline`, `reverseTemplate`, `reversePipeline`, `typeOf`,
`QueriesRaw`, `OneEdgeType`.
Key theorem: `one_edge_type_iff`.
-/
import Chronograf.Kapacitor.Client
import Mathlib.Data.List.Infix

namespace Chronograf
namespace Kapacitor

open ClientV1 (TaskType)

/-- `pipeline.EdgeType` -/
inductive EdgeType
  | stream
  | batch
  deriving DecidableEq, Repr

/-- How Kapacitor itself reads the script of a task of this type. -/
def ClientV1.TaskType.edge : TaskType → Option EdgeType
  | .invalid => none
  | .stream => some .stream
  | .batch => some .batch

section Readers

variable {α : Type}

/-- `newPipeline`, over the vendored `CreatePipeline`. -/
def newPipeline (createPipeline : Text → EdgeType → α) (script : Text) : α :=
  let edge := if "batch".toList <:+: script then EdgeType.batch else EdgeType.stream
  createPipeline script edge

/-- The template that `Reverse` takes a script's variables from. -/
def reverseTemplate (createTemplatePipeline : Text → EdgeType → α) (script : Text) : α :=
  createTemplatePipeline script .stream

/-- The pipeline that `Reverse` takes a script's alert handlers from. -/
def reversePipeline (createPipeline : Text → EdgeType → α) (script : Text) : α :=
  createPipeline script .stream

end Readers

/-- The type that a reader of scripts reads this one with. -/
def typeOf (read : (Text → EdgeType → EdgeType) → Text → EdgeType) (script : Text) : EdgeType :=
  read (fun _ edge => edge) script

/-! ### Raw text -/

variable {Nodes : Type}

/-- The rule has a raw text that is not blank. -/
def IsRaw (q : QueryConfig) : Prop := ∃ raw, q.rawText = some raw ∧ raw ≠ ""

/-- The data section of a batch with the query `query` in it. -/
def batchData (query : Text) (q : QueryConfig) : Text :=
  let batch := "\n     var data = batch\n     |query(".toList ++ ("'''\n        ".toList ++ (query ++
    ("\n      '''".toList ++ ")\n        .period(period)\n        .every(every)\n        .align()".toList)))
  if q.groupByTime ≠ "" then batch ++ (".groupBy(".toList ++ q.groupByTime.toList ++ ")".toList) else batch

/-- A raw text is the query of the data section. -/
def QueriesRaw (address : String → Text) (rule : AlertRule Nodes) (q : QueryConfig) : Prop :=
  ∀ raw, q.rawText = some raw → raw ≠ "" → data address { rule with query := some q } = .ok (batchData raw.toList q)

/-- The validation and `Reverse` read the script with the type of the task, and
the script of a rule with a raw text queries it. -/
structure OneEdgeType (address : String → Text) (rule : AlertRule Nodes) (q : QueryConfig) (script : Text) : Prop where
  validated : some (typeOf newPipeline script) = (Client.toTask q).edge
  template : some (typeOf reverseTemplate script) = (Client.toTask q).edge
  reversed : some (typeOf reversePipeline script) = (Client.toTask q).edge
  queried : QueriesRaw address rule q

variable {address : String → Text} {rule : AlertRule Nodes} {q : QueryConfig} {script : Text}

theorem toTask_of_raw (h : IsRaw q) : (Client.toTask q).edge = some .batch := by
  obtain ⟨raw, hq, hraw⟩ := h
  simp [Client.toTask, hq, hraw, ClientV1.TaskType.edge]

theorem toTask_of_not_raw (h : ¬ IsRaw q) : (Client.toTask q).edge = some .stream := by
  have hall : q.rawText.all (· = "") = true := by
    rcases hq : q.rawText with _ | raw
    · rfl
    · by_contra hraw
      exact h ⟨raw, hq, by simpa using hraw⟩
  simp [Client.toTask, hall, ClientV1.TaskType.edge]

/-- What is in the place of the query is the address of the raw text. -/
theorem data_of_raw {raw : String} (hq : q.rawText = some raw) (hraw : raw ≠ "") :
    data address { rule with query := some q } =
      .ok (batchData ("%!s(*string=0x".toList ++ (address raw ++ ")".toList)) q) := by
  have hfilter : q.rawText.filter (· ≠ "") = some raw := by
    rw [hq]
    simp [hraw]
  unfold data batchData
  simp only [hfilter]
  split <;> simp

theorem batchData_inj {a b : Text} (h : batchData a q = batchData b q) : a = b := by
  unfold batchData at h
  split at h <;> simpa using h

theorem queriesRaw_iff : QueriesRaw address rule q ↔
    ∀ raw, q.rawText = some raw → raw ≠ "" → raw.toList = "%!s(*string=0x".toList ++ (address raw ++ ")".toList) := by
  refine forall₃_congr fun raw hq hraw => ?_
  rw [data_of_raw hq hraw, Except.ok.injEq]
  exact ⟨fun h => (batchData_inj h).symm, fun h => by rw [h]⟩

theorem typeOf_newPipeline : typeOf newPipeline script = .batch ↔ "batch".toList <:+: script := by
  unfold typeOf newPipeline
  split <;> simpa

theorem validated_iff : some (typeOf newPipeline script) = (Client.toTask q).edge ↔
    ("batch".toList <:+: script ↔ IsRaw q) := by
  rw [← typeOf_newPipeline]
  by_cases hraw : IsRaw q
  · rw [toTask_of_raw hraw]
    simp [hraw]
  · rw [toTask_of_not_raw hraw]
    cases typeOf newPipeline script <;> simp [hraw]

/-- `Reverse` reads every script as one of a stream. -/
theorem reversed_iff : some EdgeType.stream = (Client.toTask q).edge ↔ ¬ IsRaw q := by
  by_cases hraw : IsRaw q
  · rw [toTask_of_raw hraw]
    simp [hraw]
  · rw [toTask_of_not_raw hraw]
    simp [hraw]

/-- For every rule and every script, the one generated for it included. -/
theorem one_edge_type_iff (address : String → Text) (rule : AlertRule Nodes) (q : QueryConfig) (script : Text) :
    (some (typeOf newPipeline script) = (Client.toTask q).edge ↔ ("batch".toList <:+: script ↔ IsRaw q)) ∧
    (some (typeOf reverseTemplate script) = (Client.toTask q).edge ↔ ¬ IsRaw q) ∧
    (some (typeOf reversePipeline script) = (Client.toTask q).edge ↔ ¬ IsRaw q) ∧
    (QueriesRaw address rule q ↔ ∀ raw, q.rawText = some raw → raw ≠ "" →
      raw.toList = "%!s(*string=0x".toList ++ (address raw ++ ")".toList)) ∧
    (OneEdgeType address rule q script ↔ ¬ IsRaw q ∧ ¬ "batch".toList <:+: script) := by
  refine ⟨validated_iff, reversed_iff, reversed_iff, queriesRaw_iff, ?_, ?_⟩
  · intro h
    have hraw := reversed_iff.mp h.reversed
    exact ⟨hraw, fun hbatch => hraw ((validated_iff.mp h.validated).mp hbatch)⟩
  · rintro ⟨hraw, hbatch⟩
    refine ⟨validated_iff.mpr (iff_of_false hbatch hraw), reversed_iff.mpr hraw, reversed_iff.mpr hraw, ?_⟩
    exact fun raw hq hne => absurd ⟨raw, hq, hne⟩ hraw

/-! ### Rules that are read in two ways -/

/-- An alert on a host that has gone. -/
def goneQuery (rawText : Option String) : QueryConfig :=
  { database := "telegraf", measurement := "cpu", retentionPolicy := "autogen", fields := [], tags := [],
    groupByTime := "", groupByTags := [], areTagsAccepted := true, rawText := rawText }

def goneRule (rawText : Option String) : AlertRule Unit :=
  { id := "", query := some (goneQuery rawText), every := "", alertNodes := (), message := "", details := "",
    trigger := deadman, triggerValues := ⟨"", "10m", "", "", "", ""⟩, name := "batch" }

/-- The script of the rule `goneRule none`. -/
def goneScript : Text :=
  "var db = 'telegraf'\n\nvar rp = 'autogen'\n\nvar measurement = 'cpu'\n\nvar groupBy = []\n\nvar whereFilter = lambda: TRUE\n\nvar period = 10m\n\nvar name = '".toList ++ ("batch".toList ++ "'\n\nvar idVar = name\n\nvar message = ''\n\nvar idTag = 'alertID'\n\nvar levelTag = 'level'\n\nvar messageField = 'message'\n\nvar durationField = 'duration'\n\nvar outputDB = 'chronograf'\n\nvar outputRP = 'autogen'\n\nvar outputMeasurement = 'alerts'\n\nvar triggerType = 'deadman'\n\nvar threshold = 0.0\n\nvar data = stream\n    |from()\n        .database(db)\n        .retentionPolicy(rp)\n        .measurement(measurement)\n        .groupBy(groupBy)\n        .where(whereFilter)\n\nvar trigger = data\n    |deadman(threshold, period)\n        .stateChangesOnly()\n        .message(message)\n        .id(idVar)\n        .idTag(idTag)\n        .levelTag(levelTag)\n        .messageField(messageField)\n        .durationField(durationField)\n\ntrigger\n    |eval(lambda: \"emitted\")\n        .as('value')\n        .keep('value', messageField, durationField)\n    |eval(lambda: float(\"value\"))\n        .as('value')\n        .keep()\n    |influxDBOut()\n        .create()\n        .database(outputDB)\n        .retentionPolicy(outputRP)\n        .measurement(outputMeasurement)\n        .tag('alertName', name)\n        .tag('triggerType', triggerType)\n\ntrigger\n    |httpOut('output')\n".toList)

/-- A rule for a stream is validated as one for batches because of its name; with
a raw text its script does not query that text, and is reversed as a stream's. -/
theorem gone_host_read_twice :
    ¬ OneEdgeType (fun _ => "c000".toList) (goneRule none) (goneQuery none) goneScript ∧
      (∃ text, vars (goneRule none) = .ok text ∧ "var name = 'batch'".toList <:+: text) ∧
      (∀ script, some (typeOf reversePipeline script) ≠ (Client.toTask (goneQuery (some "SELECT 1"))).edge) ∧
      ¬ QueriesRaw (fun _ => "c000".toList) (goneRule none) (goneQuery (some "SELECT 1")) := by
  refine ⟨fun h => ?_, ⟨_, rfl, by decide +kernel⟩, fun _ => reversed_iff.not.mpr (by simp [IsRaw, goneQuery]), fun h => ?_⟩
  · have hbatch : typeOf newPipeline goneScript = .batch := typeOf_newPipeline.mpr ⟨_, _, List.append_assoc _ _ _⟩
    have hvalidated := h.validated
    rw [hbatch] at hvalidated
    cases hvalidated
  · have hquery := queriesRaw_iff.mp h "SELECT 1" rfl (by decide)
    revert hquery
    decide +kernel

end Kapacitor
end Chronograf
