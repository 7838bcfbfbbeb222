/-
# Opening and saving the handlers of a rule

`shared/parsing/parseHandlersFromRule.js`, `parseHandlersFromConfig.js` and the
reducer of `UPDATE_RULE_ALERT_NODES`. A rule is opened by merging each of its
handlers with the first record of its type in the Kapacitor configuration, and
saved from what is enabled then. It comes back as it was if and only if no
record disables a handler or fills in a field of it, and every post has one header.

Key definitions: `parseHandlersFromConfig`, `handlersOnThisAlert`,
`updateRuleAlertNodes`, `Kept`.
Key theorems: `restored_iff`, `saved_as_opened_iff`.
-/
import Chronograf.Lib.Fields
import Mathlib.Data.List.Forall2
import Mathlib.Algebra.Order.Field.Rat

namespace Chronograf
namespace RuleHandlers

open Fields

/-- The values that fields of handlers have. -/
inductive Value
  | undefined
  | null
  | bool (b : Bool)
  | number (x : ℚ)
  | string (s : String)
  | array (vs : List Value)
  | object (fields : List (String × Value))

def Value.truthy : Value → Bool
  | .undefined | .null => false
  | .bool b => b
  | .number x => x ≠ 0
  | .string s => s ≠ ""
  | .array _ | .object _ => true

/-- A handler, of a rule or of the configuration. -/
abbrev Handler := List (String × Value)

/-- The handlers of a rule by their types. -/
abbrev AlertNodes := List (String × List Handler)

/-! ### Constants -/

def mapKeysFromConfig : List (String × String) :=
  [("hipchat", "hipChat"), ("opsgenie", "opsGenie"), ("opsgenie2", "opsGenie2"), ("pagerduty", "pagerDuty"),
    ("pagerduty2", "pagerDuty2"), ("smtp", "email"), ("victorops", "victorOps")]

/-- The fields to accept from the configuration. -/
def alertsFromConfig : List (String × List String) :=
  [("alerta", ["environment", "origin", "token"]), ("hipChat", ["url", "room", "token"]), ("kafka", ["id"]),
    ("opsGenie", ["api-key", "teams", "recipients"]), ("opsGenie2", ["api-key", "teams", "recipients"]),
    ("pagerDuty", ["service-key"]), ("pagerDuty2", ["routing-key"]), ("pushover", ["token", "user-key"]),
    ("sensu", ["addr", "source"]), ("slack", ["url", "channel", "workspace"]),
    ("email", ["from", "host", "password", "port", "username"]), ("talk", ["url", "author_name"]),
    ("telegram", ["token", "chat-id", "parse-mode", "disable-web-page-preview", "disable-notification"]),
    ("victorOps", ["api-key", "routing-key"])]

def mapFieldKeysFromConfig : List (String × List (String × String)) :=
  [("alerta", []), ("hipChat", []), ("opsGenie", []), ("opsGenie2", []), ("pagerDuty", [("service-key", "serviceKey")]),
    ("pagerDuty2", [("routing-key", "routingKey")]), ("pushover", [("user-key", "userKey")]), ("sensu", []), ("slack", []),
    ("email", []), ("talk", []),
    ("telegram", [("chat-id", "chatId"), ("parse-mode", "parseMode"),
      ("disable-web-page-preview", "disableWebPagePreview"), ("disable-notification", "disableNotification")]),
    ("victorOps", [("routing-key", "routingKey")])]

/-- The fields that may be updated for each alert on a rule. -/
def handlersToRuleThemAll : List (String × List String) :=
  [("alerta", ["resource", "event", "environment", "group", "value", "origin", "service"]), ("hipChat", ["room"]),
    ("kafka", ["id", "cluster", "kafka-topic", "template"]), ("opsGenie", ["teams", "recipients"]),
    ("opsGenie2", ["teams", "recipients"]), ("pagerDuty", []), ("pagerDuty2", []),
    ("pushover", ["device", "title", "sound", "url", "urlTitle"]), ("sensu", ["source", "handlers"]),
    ("slack", ["channel", "username", "iconEmoji", "workspace"]), ("email", ["to"]), ("talk", []),
    ("telegram", ["chatId", "parseMode", "disableWebPagePreview", "disableNotification"]), ("victorOps", ["routingKey"]),
    ("post", ["url", "headers", "captureResponse"]), ("tcp", ["address"]), ("exec", ["command"]), ("log", ["filePath"])]

/-! ### Handlers of the configuration -/

def typeOf (h : Handler) : Option String :=
  match get h "type" with
  | some (.string s) => some s
  | _ => none

/-- The records of the sections, with the names that rules have for their types. -/
def allHandlers (sections : List (String × List Handler)) : List Handler :=
  sections.flatMap fun s => s.2.map fun option => ("type", .string ((get mapKeysFromConfig s.1).getD s.1)) :: option

def mapField (type key : String) : String := (get ((get mapFieldKeysFromConfig type).getD []) key).getD key

/-- The sections with the options of their elements. -/
def parseHandlersFromConfig (sections : List (String × List Handler)) : List Handler :=
  (allHandlers sections).filterMap fun h => do
    let type ← typeOf h
    let fields ← get alertsFromConfig type
    return rename (mapField type) (pick h ("type" :: "enabled" :: fields))

/-! ### Opening a rule -/

/-- The keys of a value with what they stand for. -/
def ownFields : Option Value → List (String × Value)
  | some (.object fields) => fields
  | some (.array vs) => vs.zipIdx.map fun v => (Nat.repr v.2, v.1)
  | some (.string s) => s.toList.zipIdx.map fun c => (Nat.repr c.2, .string (String.singleton c.1))
  | _ => []

/-- The options of a post, with the first header as two fields. -/
def splitHeaders (alertOptions : Handler) : Handler :=
  let header := (ownFields (get alertOptions "headers")).head?
  without (alertOptions ++ [("headerKey", (header.map fun f => Value.string f.1).getD .undefined),
    ("headerValue", (header.map (·.2)).getD .undefined)]) "headers"

def endpoint (thisAlertFromConfig : Option Handler) (alertKind : String) (count : ℕ) (alertOptions : Handler) : Handler :=
  [("enabled", .bool true)] ++ thisAlertFromConfig.getD [] ++
    (if alertKind = "post" then splitHeaders alertOptions else alertOptions) ++
    [("alias", .string (alertKind ++ "-" ++ Nat.repr count)), ("type", .string alertKind)]

def fromConfig (handlersFromConfig : List Handler) (alertKind : String) : Option Handler :=
  handlersFromConfig.find? fun h => typeOf h = some alertKind

/-- The handlers of one kind, counted from `count` on. -/
def endpoints (thisAlertFromConfig : Option Handler) (alertKind : String) : ℕ → List Handler → List Handler
  | _, [] => []
  | count, h :: hs =>
    endpoint thisAlertFromConfig alertKind (count + 1) h :: endpoints thisAlertFromConfig alertKind (count + 1) hs

def handlersOnThisAlert (alertNodes : AlertNodes) (handlersFromConfig : List Handler) : List Handler :=
  (alertNodes.filter fun n => (get handlersToRuleThemAll n.1).isSome).flatMap fun n =>
    endpoints (fromConfig handlersFromConfig n.1) n.1 0 n.2

/-! ### Saving a rule -/

def isEmptyText : Option Value → Bool
  | some (.string s) => s = ""
  | _ => false

/-- Whether the length is zero; without a value there is no length to read. -/
def isEmptyCommand : Option Value → Option Bool
  | none | some .undefined | some .null => none
  | some (.string s) => some (s = "")
  | some (.array vs) => some vs.isEmpty
  | some (.object fields) =>
    match get fields "length" with
    | some (.number x) => some (x = 0)
    | _ => some false
  | some _ => some false

/-- The two fields of a post as its headers. -/
def joinHeaders (h : Handler) : Handler :=
  let key := match get h "headerKey" with
    | some (.string s) => s
    | _ => "undefined"
  h ++ [("headers", .object [(key, (get h "headerValue").getD .undefined)])]

/-- A handler whose only field that has to be there is empty. -/
def isIncomplete (type : String) (h : Handler) : Option Bool :=
  if type = "post" then some (isEmptyText (get h "url"))
  else if type = "log" then some (isEmptyText (get h "filePath"))
  else if type = "tcp" then some (isEmptyText (get h "address"))
  else if type = "exec" then isEmptyCommand (get h "command")
  else some false

/-- What is saved of a handler, if anything; the outer `none` is a `TypeError`. -/
def saved (h : Handler) : Option (Option (String × Handler)) :=
  match (get h "enabled").any Value.truthy, typeOf h with
  | true, some type => do
    if ← isIncomplete type h then return none
    else
      let h := if type = "post" then joinHeaders h else h
      return some (type, pick h ((get handlersToRuleThemAll type).getD []))
  | _, _ => some none

def addNode (alertNodesByType : AlertNodes) (h : Handler) : Option AlertNodes := do
  match ← saved h with
  | none => return alertNodesByType
  | some (type, picked) => return alertNodesByType ++ [(type, (get alertNodesByType type).getD [] ++ [picked])]

def updateRuleAlertNodes (alerts : List Handler) : Option AlertNodes := alerts.foldlM addNode []

/-! ### Rules that can be opened -/

/-- The field of a handler that has to be there. -/
def required : List (String × String) := [("post", "url"), ("log", "filePath"), ("tcp", "address"), ("exec", "command")]

def Value.Filled : Value → Prop
  | .string s => s ≠ ""
  | .array vs => vs ≠ []
  | _ => False

/-- Handlers with the fields that rules have, of types that rules have. -/
structure Listed (alertNodes : AlertNodes) : Prop where
  nodup : (alertNodes.map (·.1)).Nodup
  fields : ∀ n ∈ alertNodes, ∃ fields, get handlersToRuleThemAll n.1 = some fields ∧ ∀ h ∈ n.2, ∀ f ∈ h, f.1 ∈ fields
  filled : ∀ n ∈ alertNodes, ∀ h ∈ n.2, ∀ k ∈ get required n.1, ∃ v ∈ get h k, v.Filled

/-- A record of the configuration does not disable the handler and has no field
that the handler lacks, and a post has one header. -/
structure HandlerKept (c : Option Handler) (kind : String) (h : Handler) : Prop where
  enabled : ∀ v ∈ get (c.getD []) "enabled", v.truthy
  fields : ∀ fields ∈ get handlersToRuleThemAll kind, ∀ k ∈ fields, get h k = none → get (c.getD []) k = none
  header : kind = "post" → ∃ f, get h "headers" = some (.object [f])

/-- Every handler of the rule is kept. -/
def Kept (sections : List (String × List Handler)) (alertNodes : AlertNodes) : Prop :=
  ∀ n ∈ alertNodes, ∀ h ∈ n.2, HandlerKept (fromConfig (parseHandlersFromConfig sections) n.1) n.1 h

/-- The same handlers of each type, in their order. -/
def SameNodes (ns ns' : AlertNodes) : Prop :=
  ∀ type, List.Forall₂ Same ((get ns type).getD []) ((get ns' type).getD [])

/-! ### One handler -/

/-- No rule has a field that is kept aside while it is open. -/
theorem reserved {kind : String} {fields : List String} (h : get handlersToRuleThemAll kind = some fields) :
    ∀ k ∈ ["enabled", "alias", "type", "headerKey", "headerValue"], k ∉ fields := by
  have hall : ∀ n ∈ handlersToRuleThemAll, ∀ k ∈ ["enabled", "alias", "type", "headerKey", "headerValue"], k ∉ n.2 := by
    decide
  exact hall _ (mem_of_get h)

theorem pick_congr {o o' : Handler} {ks : List String} (h : ∀ k ∈ ks, get o k = get o' k) : pick o ks = pick o' ks :=
  List.filterMap_congr fun k hk => by rw [h k hk]

theorem get_splitHeaders (h : Handler) (k : String) : get (splitHeaders h) k =
    if k = "headers" then none
    else if k = "headerValue" then some ((((ownFields (get h "headers")).head?).map (·.2)).getD .undefined)
    else if k = "headerKey" then some ((((ownFields (get h "headers")).head?).map fun f => Value.string f.1).getD .undefined)
    else get h k := by
  unfold splitHeaders
  rw [get_without]
  split_ifs with hheaders hvalue hkey
  · rfl
  · subst hvalue
    simp
  · subst hkey
    simp
  · simp [Ne.symm hvalue, Ne.symm hkey]

section Endpoint

variable {c : Option Handler} {kind : String} {count : ℕ} {h : Handler} {fields : List String}

theorem get_endpoint {k : String} (halias : k ≠ "alias") (htype : k ≠ "type") : get (endpoint c kind count h) k =
    (get (if kind = "post" then splitHeaders h else h) k).or
      ((get (c.getD []) k).or (if "enabled" = k then some (.bool true) else none)) := by
  simp [endpoint, Ne.symm halias, Ne.symm htype, Option.or_assoc]

theorem typeOf_endpoint : typeOf (endpoint c kind count h) = some kind := by
  simp [typeOf, endpoint]

/-- The headers that are saved of a post. -/
def savedHeaders (h : Handler) : Value :=
  match (ownFields (get h "headers")).head? with
  | some f => .object [f]
  | none => .object [("undefined", .undefined)]

theorem savedHeaders_eq {v : Value} (h : Handler) (hv : get h "headers" = some v) :
    savedHeaders h = v ↔ ∃ f, v = .object [f] := by
  unfold savedHeaders
  rw [hv]
  constructor
  · intro heq
    split at heq
    · exact ⟨_, heq.symm⟩
    · exact ⟨_, heq.symm⟩
  · rintro ⟨f, rfl⟩
    rfl

theorem headers_endpoint (hpost : kind = "post") :
    get (joinHeaders (endpoint c kind count h)) "headers" = some (savedHeaders h) := by
  have hkey : get (endpoint c kind count h) "headerKey" =
      some (((ownFields (get h "headers")).head?.map fun f => Value.string f.1).getD .undefined) := by
    rw [get_endpoint (by decide) (by decide), if_pos hpost, get_splitHeaders]
    rfl
  have hvalue : get (endpoint c kind count h) "headerValue" =
      some (((ownFields (get h "headers")).head?.map (·.2)).getD .undefined) := by
    rw [get_endpoint (by decide) (by decide), if_pos hpost, get_splitHeaders]
    rfl
  rw [joinHeaders, get_append, hkey, hvalue, savedHeaders]
  cases (ownFields (get h "headers")).head? <;> rfl

/-- The fields that a handler is saved from. -/
def merged (c : Option Handler) (kind : String) (h : Handler) : Handler :=
  c.getD [] ++ h ++ (if kind = "post" then [("headers", savedHeaders h)] else [])

def restored (c : Option Handler) (kind : String) (h : Handler) : Handler :=
  pick (merged c kind h) ((get handlersToRuleThemAll kind).getD [])

variable (hfields : get handlersToRuleThemAll kind = some fields) (hlisted : ∀ f ∈ h, f.1 ∈ fields)

include hfields hlisted

theorem get_reserved {k : String} (hk : k ∈ ["enabled", "alias", "type", "headerKey", "headerValue"]) : get h k = none :=
  get_eq_none.mpr fun f hf heq => reserved hfields k hk (heq ▸ hlisted f hf)

theorem enabled_endpoint : (get (endpoint c kind count h) "enabled").any Value.truthy =
    (get (c.getD []) "enabled").all Value.truthy := by
  have hnone : get (if kind = "post" then splitHeaders h else h) "enabled" = none := by
    have hh := get_reserved hfields hlisted (k := "enabled") (by decide)
    split_ifs
    · rw [get_splitHeaders]
      simp [hh]
    · exact hh
  rw [get_endpoint (by decide) (by decide), hnone, Option.none_or]
  cases get (c.getD []) "enabled" with
  | none => rfl
  | some v => rfl

omit hlisted in
/-- The fields of a rule are those of its handler and then of the record. -/
theorem get_endpoint_field {k : String} (hk : k ∈ fields) (hheaders : kind = "post" → k ≠ "headers") :
    get (endpoint c kind count h) k = (get h k).or (get (c.getD []) k) := by
  have hne : ∀ k' ∈ ["enabled", "alias", "type", "headerKey", "headerValue"], k ≠ k' :=
    fun k' hk' heq => reserved hfields k' hk' (heq ▸ hk)
  rw [get_endpoint (hne _ (by decide)) (hne _ (by decide)), if_neg (Ne.symm (hne _ (by decide))), Option.or_none]
  split_ifs with hpost
  · rw [get_splitHeaders, if_neg (hheaders hpost), if_neg (hne _ (by decide)), if_neg (hne _ (by decide))]
  · rfl

omit hlisted in
theorem isIncomplete_endpoint (hfilled : ∀ k ∈ get required kind, ∃ v ∈ get h k, v.Filled) :
    isIncomplete kind (endpoint c kind count h) = some false := by
  have hvalue : ∀ k, get required kind = some k → k ∈ fields → (kind = "post" → k ≠ "headers") →
      ∃ v, get (endpoint c kind count h) k = some v ∧ v.Filled := by
    intro k hk hmem hheaders
    obtain ⟨v, hv, hfilled⟩ := hfilled k hk
    exact ⟨v, by rw [get_endpoint_field hfields hmem hheaders, hv, Option.some_or], hfilled⟩
  have htext : ∀ v : Value, v.Filled → isEmptyText (some v) = false := by
    intro v hv
    cases v <;> simp_all [Value.Filled, isEmptyText]
  have hcommand : ∀ v : Value, v.Filled → isEmptyCommand (some v) = some false := by
    intro v hv
    cases v <;> simp_all [Value.Filled, isEmptyCommand]
  have hfieldsOf : ∀ {k : String}, k ∈ (get handlersToRuleThemAll kind).getD [] → k ∈ fields := by
    rw [hfields]
    exact id
  unfold isIncomplete
  split_ifs with hpost hlog htcp hexec
  · subst hpost
    obtain ⟨v, hv, hfilled⟩ := hvalue "url" rfl (hfieldsOf (by decide)) (by decide)
    rw [hv, htext v hfilled]
  · subst hlog
    obtain ⟨v, hv, hfilled⟩ := hvalue "filePath" rfl (hfieldsOf (by decide)) (by decide)
    rw [hv, htext v hfilled]
  · subst htcp
    obtain ⟨v, hv, hfilled⟩ := hvalue "address" rfl (hfieldsOf (by decide)) (by decide)
    rw [hv, htext v hfilled]
  · subst hexec
    obtain ⟨v, hv, hfilled⟩ := hvalue "command" rfl (hfieldsOf (by decide)) (by decide)
    rw [hv, hcommand v hfilled]
  · rfl

/-- An opened handler is saved if no record disables it. -/
theorem saved_endpoint (hfilled : ∀ k ∈ get required kind, ∃ v ∈ get h k, v.Filled) :
    saved (endpoint c kind count h) =
      some (if (get (c.getD []) "enabled").all Value.truthy then some (kind, restored c kind h) else none) := by
  unfold saved
  rw [enabled_endpoint hfields hlisted, typeOf_endpoint]
  cases (get (c.getD []) "enabled").all Value.truthy with
  | false => rfl
  | true =>
    have hpick : pick (if kind = "post" then joinHeaders (endpoint c kind count h) else endpoint c kind count h) fields =
        pick (merged c kind h) fields := by
      refine pick_congr fun k hk => ?_
      by_cases hheaders : kind = "post" ∧ k = "headers"
      · rw [if_pos hheaders.1, hheaders.2, headers_endpoint hheaders.1]
        simp [merged, hheaders.1]
      · have hne : kind = "post" → k ≠ "headers" := fun hpost heq => hheaders ⟨hpost, heq⟩
        have hget : get (merged c kind h) k = get (endpoint c kind count h) k := by
          rw [get_endpoint_field hfields hk hne, merged, get_append, get_append]
          split_ifs with hpost
          · simp [Ne.symm (hne hpost)]
          · rw [get_nil, Option.none_or]
        rw [hget]
        split_ifs with hpost
        · rw [joinHeaders, get_append]
          simp [Ne.symm (hne hpost)]
        · rfl
    simp only [isIncomplete_endpoint hfields hfilled, restored, hfields, Option.getD_some, hpick, if_true]
    rfl

/-- What is saved is the handler as it was. -/
theorem restored_iff : Same (restored c kind h) h ↔
    (∀ k ∈ fields, get h k = none → get (c.getD []) k = none) ∧
      (kind = "post" → ∃ f, get h "headers" = some (.object [f])) := by
  have hmerged : ∀ k, get (merged c kind h) k = (if kind = "post" ∧ k = "headers" then some (savedHeaders h) else none).or
      ((get h k).or (get (c.getD []) k)) := by
    intro k
    rw [merged, get_append, get_append]
    by_cases hpost : kind = "post"
    · simp [hpost, eq_comm]
    · simp [hpost]
  have hsame : Same (restored c kind h) h ↔ ∀ k ∈ fields, get (merged c kind h) k = get h k := by
    rw [restored, hfields, Option.getD_some]
    refine forall_congr' fun k => ?_
    rw [get_pick]
    by_cases hk : k ∈ fields
    · simp [hk]
    · have hnone : get h k = none := get_eq_none.mpr fun f hf heq => hk (heq ▸ hlisted f hf)
      simp [hk, hnone]
  rw [hsame]
  constructor
  · intro hall
    have hheader : kind = "post" → ∃ f, get h "headers" = some (.object [f]) := by
      rintro rfl
      have hmem : "headers" ∈ fields := by
        obtain rfl := Option.some.inj hfields
        decide
      have heq := hall _ hmem
      rw [hmerged, if_pos ⟨rfl, rfl⟩, Option.some_or] at heq
      obtain ⟨f, hf⟩ := (savedHeaders_eq h heq.symm).mp rfl
      exact ⟨f, heq.symm.trans (congrArg some hf)⟩
    refine ⟨fun k hk hnone => ?_, hheader⟩
    have heq := hall k hk
    rw [hmerged, if_neg, hnone, Option.none_or, Option.none_or] at heq
    · exact heq
    · rintro ⟨hpost, rfl⟩
      obtain ⟨f, hf⟩ := hheader hpost
      rw [hnone] at hf
      cases hf
  · rintro ⟨hnone, hheader⟩ k hk
    rw [hmerged]
    by_cases hpost : kind = "post" ∧ k = "headers"
    · obtain ⟨f, hf⟩ := hheader hpost.1
      rw [if_pos hpost, Option.some_or, hpost.2, hf, (savedHeaders_eq h hf).mpr ⟨f, rfl⟩]
    · rw [if_neg hpost, Option.none_or]
      cases hget : get h k with
      | none => exact hnone k hk hget
      | some v => rfl

end Endpoint

/-! ### All handlers -/

/-- What is saved of one handler, if it is of the type. -/
def savedAs (type : String) (h : Handler) : Option Handler :=
  match saved h with
  | some (some (t, picked)) => if t = type then some picked else none
  | _ => none

/-- Where no handler throws, each type has what is saved of its handlers, in order. -/
theorem updateRuleAlertNodes_spec : ∀ {alerts : List Handler} (ns : AlertNodes), (∀ h ∈ alerts, (saved h).isSome) →
    ∃ ns', alerts.foldlM addNode ns = some ns' ∧
      ∀ type, (get ns' type).getD [] = (get ns type).getD [] ++ alerts.filterMap (savedAs type)
  | [], ns, _ => ⟨ns, rfl, fun _ => (List.append_nil _).symm⟩
  | h :: alerts, ns, hall => by
    obtain ⟨result, hresult⟩ := Option.isSome_iff_exists.mp (hall h List.mem_cons_self)
    have hrest : ∀ h' ∈ alerts, (saved h').isSome := fun h' hh' => hall h' (List.mem_cons_of_mem _ hh')
    cases result with
    | none =>
      obtain ⟨ns', hns', hget⟩ := updateRuleAlertNodes_spec ns hrest
      refine ⟨ns', ?_, fun type => ?_⟩
      · rw [List.foldlM_cons, addNode, hresult]
        exact hns'
      · rw [hget, List.filterMap_cons, savedAs, hresult]
    | some p =>
      obtain ⟨t, picked⟩ := p
      obtain ⟨ns', hns', hget⟩ := updateRuleAlertNodes_spec (ns ++ [(t, (get ns t).getD [] ++ [picked])]) hrest
      refine ⟨ns', ?_, fun type => ?_⟩
      · rw [List.foldlM_cons, addNode, hresult]
        exact hns'
      · rw [hget, List.filterMap_cons, savedAs, hresult]
        by_cases ht : t = type
        · subst ht
          simp
        · simp [ht]

/-- A list is its own filtered image just if every element is its own image. -/
theorem forall₂_filterMap {α : Type} {R : α → α → Prop} {f : α → Option α} : ∀ {l : List α},
    List.Forall₂ R (l.filterMap f) l ↔ ∀ a ∈ l, ∃ b, f a = some b ∧ R b a
  | [] => by simp
  | a :: l => by
    rw [List.forall_mem_cons, ← forall₂_filterMap (l := l), List.filterMap_cons]
    cases ha : f a with
    | none =>
      refine iff_of_false (fun h => ?_) (by simp)
      have hle := List.length_filterMap_le f l
      rw [h.length_eq, List.length_cons] at hle
      omega
    | some b => simp

/-- The handler as it is saved, unless the record disables it. -/
def keptAs (c : Option Handler) (kind : String) (h : Handler) : Option Handler :=
  if (get (c.getD []) "enabled").all Value.truthy then some (restored c kind h) else none

theorem keptAs_iff {c : Option Handler} {kind : String} {h : Handler} {fields : List String}
    (hfields : get handlersToRuleThemAll kind = some fields) (hlisted : ∀ f ∈ h, f.1 ∈ fields) :
    (∃ h', keptAs c kind h = some h' ∧ Same h' h) ↔ HandlerKept c kind h := by
  have henabled : (get (c.getD []) "enabled").all Value.truthy ↔ ∀ v ∈ get (c.getD []) "enabled", v.truthy := by
    cases get (c.getD []) "enabled" <;> simp
  unfold keptAs
  constructor
  · rintro ⟨h', hh', hsame⟩
    split_ifs at hh' with hall
    obtain rfl := Option.some.inj hh'
    obtain ⟨hnone, hheader⟩ := (restored_iff hfields hlisted).mp hsame
    exact ⟨henabled.mp hall, fun fields' hfields' => Option.some.inj (hfields.symm.trans hfields') ▸ hnone, hheader⟩
  · rintro ⟨hall, hnone, hheader⟩
    exact ⟨_, if_pos (henabled.mpr hall), (restored_iff hfields hlisted).mpr ⟨hnone fields hfields, hheader⟩⟩

theorem endpoints_saved {c : Option Handler} {kind : String} {fields : List String}
    (hfields : get handlersToRuleThemAll kind = some fields) : ∀ (count : ℕ) {hs : List Handler},
    (∀ h ∈ hs, ∀ f ∈ h, f.1 ∈ fields) → (∀ h ∈ hs, ∀ k ∈ get required kind, ∃ v ∈ get h k, v.Filled) →
    (∀ h ∈ endpoints c kind count hs, (saved h).isSome) ∧ ∀ type, (endpoints c kind count hs).filterMap (savedAs type) =
      if kind = type then hs.filterMap (keptAs c kind) else []
  | _, [], _, _ => ⟨fun h hh => absurd hh List.not_mem_nil, fun type => by split_ifs <;> rfl⟩
  | count, h :: hs, hlisted, hfilled => by
    obtain ⟨hlisted₁, hlisted⟩ := List.forall_mem_cons.mp hlisted
    obtain ⟨hfilled₁, hfilled⟩ := List.forall_mem_cons.mp hfilled
    obtain ⟨hsaved, hmap⟩ := endpoints_saved (c := c) hfields (count + 1) hlisted hfilled
    have hsaved₁ : saved (endpoint c kind (count + 1) h) = _ := saved_endpoint hfields hlisted₁ hfilled₁
    refine ⟨List.forall_mem_cons.mpr ⟨by rw [hsaved₁]; rfl, hsaved⟩, fun type => ?_⟩
    rw [endpoints, List.filterMap_cons, hmap, savedAs, hsaved₁, List.filterMap_cons, keptAs]
    by_cases hall : (get (c.getD []) "enabled").all Value.truthy
    · simp only [if_pos hall]
      split_ifs <;> rfl
    · simp only [if_neg hall]

/-- What is saved of a rule that has been opened, type by type. -/
theorem opened_saved (cfg : List Handler) : ∀ {ns : AlertNodes}, (ns.map (·.1)).Nodup →
    (∀ n ∈ ns, ∃ fields, get handlersToRuleThemAll n.1 = some fields ∧ ∀ h ∈ n.2, ∀ f ∈ h, f.1 ∈ fields) →
    (∀ n ∈ ns, ∀ h ∈ n.2, ∀ k ∈ get required n.1, ∃ v ∈ get h k, v.Filled) →
    (∀ h ∈ handlersOnThisAlert ns cfg, (saved h).isSome) ∧ ∀ type, (handlersOnThisAlert ns cfg).filterMap (savedAs type) =
      ((get ns type).getD []).filterMap (keptAs (fromConfig cfg type) type)
  | [], _, _, _ => ⟨fun h hh => absurd hh List.not_mem_nil, fun _ => rfl⟩
  | n :: ns, hnodup, hlisted, hfilled => by
    rw [List.map_cons, List.nodup_cons] at hnodup
    obtain ⟨⟨fields, hfields, hlisted₁⟩, hlisted⟩ := List.forall_mem_cons.mp hlisted
    obtain ⟨hfilled₁, hfilled⟩ := List.forall_mem_cons.mp hfilled
    obtain ⟨hsaved, hmap⟩ := opened_saved cfg hnodup.2 hlisted hfilled
    obtain ⟨hsaved₁, hmap₁⟩ := endpoints_saved (c := fromConfig cfg n.1) hfields 0 hlisted₁ hfilled₁
    have hcons : handlersOnThisAlert (n :: ns) cfg =
        endpoints (fromConfig cfg n.1) n.1 0 n.2 ++ handlersOnThisAlert ns cfg := by
      rw [handlersOnThisAlert, List.filter_cons, if_pos (by rw [hfields]; rfl), List.flatMap_cons]
      rfl
    rw [hcons]
    refine ⟨fun h hh => (List.mem_append.mp hh).elim (hsaved₁ h) (hsaved h), fun type => ?_⟩
    rw [List.filterMap_append, hmap, hmap₁, get_cons]
    by_cases htype : n.1 = type
    · subst htype
      have hnone : get ns n.1 = none :=
        get_eq_none.mpr fun m hm heq => hnodup.1 (List.mem_map.mpr ⟨m, hm, heq⟩)
      simp [hnone]
    · simp [htype]

/-- Saving a rule that has been opened leaves it as it was if and only if every
handler is kept. -/
theorem saved_as_opened_iff {sections : List (String × List Handler)} {alertNodes : AlertNodes} (h : Listed alertNodes) :
    (∃ ns, updateRuleAlertNodes (handlersOnThisAlert alertNodes (parseHandlersFromConfig sections)) = some ns ∧
      SameNodes ns alertNodes) ↔ Kept sections alertNodes := by
  set cfg := parseHandlersFromConfig sections with hcfg
  obtain ⟨hsaved, hmap⟩ := opened_saved cfg h.nodup h.fields h.filled
  obtain ⟨ns, hns, hget⟩ := updateRuleAlertNodes_spec [] hsaved
  have hsame : SameNodes ns alertNodes ↔ ∀ type, ∀ a ∈ (get alertNodes type).getD [],
      ∃ b, keptAs (fromConfig cfg type) type a = some b ∧ Same b a := by
    refine forall_congr' fun type => ?_
    rw [hget, hmap, get_nil, Option.getD_none, List.nil_append, forall₂_filterMap]
  have hkept : (∀ type, ∀ a ∈ (get alertNodes type).getD [], ∃ b, keptAs (fromConfig cfg type) type a = some b ∧ Same b a) ↔
      Kept sections alertNodes := by
    constructor
    · intro hall n hn a ha
      obtain ⟨fields, hfields, hlisted⟩ := h.fields n hn
      refine (keptAs_iff hfields (hlisted a ha)).mp (hall n.1 a ?_)
      rw [get_of_mem h.nodup hn]
      exact ha
    · intro hall type a ha
      cases hnode : get alertNodes type with
      | none =>
        rw [hnode] at ha
        exact absurd ha List.not_mem_nil
      | some hs =>
        rw [hnode] at ha
        obtain ⟨fields, hfields, hlisted⟩ := h.fields _ (mem_of_get hnode)
        exact (keptAs_iff hfields (hlisted a ha)).mpr (hall _ (mem_of_get hnode) a ha)
  rw [← hkept, ← hsame]
  constructor
  · rintro ⟨ns', hns', heq⟩
    obtain rfl := Option.some.inj (hns.symm.trans hns')
    exact heq
  · exact fun heq => ⟨ns, hns, heq⟩

/-- A slack handler with a channel of its own. -/
def slackNodes : AlertNodes := [("slack", [[("channel", .string "#alerts")]])]

theorem slackNodes_listed : Listed slackNodes := by
  refine ⟨by decide, fun n hn => ?_, fun n hn h hh k hk => ?_⟩
  · obtain rfl := List.mem_singleton.mp hn
    refine ⟨["channel", "username", "iconEmoji", "workspace"], rfl, fun h hh f hf => ?_⟩
    obtain rfl := List.mem_singleton.mp hh
    obtain rfl := List.mem_singleton.mp hf
    decide
  · obtain rfl := List.mem_singleton.mp hn
    cases hk

/-- The records of Kapacitor for slack. -/
def slackSection (enabled : Bool) : List (String × List Handler) :=
  [("slack", [[("enabled", .bool enabled), ("channel", .string "#ops")]])]

theorem slack_kept : ∃ ns,
    updateRuleAlertNodes (handlersOnThisAlert slackNodes (parseHandlersFromConfig (slackSection true))) = some ns ∧
      SameNodes ns slackNodes := by
  refine (saved_as_opened_iff slackNodes_listed).mpr fun n hn h hh => ?_
  obtain rfl := List.mem_singleton.mp hn
  obtain rfl := List.mem_singleton.mp hh
  refine ⟨fun v hv => ?_, fun fields hfields k hk hnone => ?_, fun hpost => absurd hpost (by decide)⟩
  · obtain rfl : v = .bool true := (Option.some.inj hv).symm
    rfl
  · obtain rfl := Option.some.inj hfields
    rcases List.mem_cons.mp hk with rfl | hk
    · cases hnone
    · refine get_eq_none.mpr fun f hf heq => ?_
      have hkeys : ∀ f ∈ (fromConfig (parseHandlersFromConfig (slackSection true)) "slack").getD [],
          f.1 ∈ ["type", "enabled", "channel"] := by
        intro f hf
        have hmem : f.1 ∈ ((fromConfig (parseHandlersFromConfig (slackSection true)) "slack").getD []).map (·.1) :=
          List.mem_map_of_mem hf
        exact hmem
      rw [← heq] at hk
      have hdisjoint : ∀ k ∈ ["type", "enabled", "channel"], k ∉ ["username", "iconEmoji", "workspace"] := by decide
      exact hdisjoint _ (hkeys f hf) hk

/-- A handler is dropped when its type is disabled in Kapacitor. -/
theorem slack_dropped : Listed slackNodes ∧ ¬ ∃ ns,
    updateRuleAlertNodes (handlersOnThisAlert slackNodes (parseHandlersFromConfig (slackSection false))) = some ns ∧
      SameNodes ns slackNodes := by
  refine ⟨slackNodes_listed, ?_⟩
  rintro ⟨ns, hns, hsame⟩
  obtain rfl : [] = ns := Option.some.inj hns
  cases hsame "slack"

end RuleHandlers
end Chronograf
