/-
# TICKscripts of alert rules

The `kapacitor` package: what `Alert.Generate` pastes together for a rule. Its
parts keep the names of the source. The vendored Kapacitor packages are
parameters (`Kapacitor`): the formatter of TICKscripts, the check that one is a
pipeline, and the chaining methods of the alert handlers.

Key definitions: `AlertRule`, `Kapacitor`, `vars`, `data`, `trigger`, `pasted`,
`generate`.
-/
import Chronograf.Kapacitor.Tokens
import Mathlib.Data.Int.Notation

namespace Chronograf
namespace Kapacitor

open Tick

abbrev Text := List Char

/-- How a call ends without a value: with an error or, on a nil pointer, a panic. -/
inductive Failure
  | error (text : String)
  | panic

/-! ### Rules -/

/-- A value of a field: a string, or anything else with its texts for `%s`, `%v` and `%T`. -/
inductive FieldValue
  | string (s : String)
  | other (shown printed type : String)

/-- An argument of a function. -/
structure Arg where
  value : FieldValue
  type : String

structure Field where
  value : FieldValue
  type : String
  args : List Arg

/-- `tags` are in the order in which they are ranged over. -/
structure QueryConfig where
  database : String
  measurement : String
  retentionPolicy : String
  fields : List Field
  tags : List (String × List String)
  groupByTime : String
  groupByTags : List String
  areTagsAccepted : Bool
  rawText : Option String

structure TriggerValues where
  change : String
  period : String
  shift : String
  operator : String
  value : String
  rangeValue : String

structure AlertRule (Nodes : Type) where
  id : String
  query : Option QueryConfig
  every : String
  alertNodes : Nodes
  message : String
  details : String
  trigger : String
  triggerValues : TriggerValues
  name : String

/-! ### Variables -/

local instance lawfulBEqName : LawfulBEq Text := inferInstanceAs (LawfulBEq (List Char))

/-- `strconv.ParseFloat(value, 64)` gives no error: a decimal number that is not
too large, or one of the special values. -/
def parseFloat (value : Text) : Bool :=
  let lower := value.map Char.toLower
  let digits := fun cs : Text => cs.takeWhile Char.isDigit
  let unsigned := match value with
    | '+' :: cs => cs
    | '-' :: cs => cs
    | cs => cs
  let whole := digits unsigned
  let afterWhole := unsigned.dropWhile Char.isDigit
  let (fraction, afterFraction) := match afterWhole with
    | '.' :: cs => (digits cs, cs.dropWhile Char.isDigit)
    | cs => ([], cs)
  let exponent : Option ℤ := match afterFraction with
    | [] => some 0
    | e :: cs =>
      let (sign, ds) := match cs with
        | '+' :: cs => ((1 : ℤ), cs)
        | '-' :: cs => (-1, cs)
        | cs => (1, cs)
      if (e = 'e' ∨ e = 'E') ∧ ds ≠ [] ∧ ds.all Char.isDigit then
        -- The digits after a number of five do not count.
        some (sign * ds.foldl (fun n d => if n < 10000 then 10 * n + (d.toNat - '0'.toNat : ℕ) else n) 0)
      else none
  let mantissa := Nat.ofDigitChars 10 (whole ++ fraction) 0
  let inRange := fun e : ℤ => mantissa * 10 ^ e.toNat < (2 ^ 54 - 1) * 2 ^ 970 * 10 ^ (-e).toNat
  lower ∈ ["inf", "+inf", "-inf", "infinity", "+infinity", "-infinity", "nan"].map String.toList ||
    whole ++ fraction ≠ [] && exponent.any fun e => inRange (e - fraction.length)

def quote (s : Text) : Text := '\'' :: s ++ ['\'']

/-- Only the single quotes get a `\`. -/
def escape (str : Text) : Text := Replace.replaceAll ['\''] ['\\', '\''] str

/-- `NotEmpty.Valid`; only the first error counts. -/
def valid (name s : String) : Except Failure Unit :=
  if s = "" then .error (.error (name ++ " cannot be an empty string")) else .ok ()

def deadman : String := "deadman"

def relative : String := "relative"

def threshold : String := "threshold"

def groupBy (q : QueryConfig) : Text :=
  "[".toList ++ [','].intercalate (q.groupByTags.map fun tag => quote tag.toList) ++ "]".toList

def idVar (q : QueryConfig) : Text := if q.groupByTags.length > 0 then "name + ':\x7b\x7b.Group\x7d\x7d'".toList else "name".toList

/-- The condition on one tag. -/
def whereClause (operator : String) (tag : String × List String) : Text :=
  "(".toList ++ " OR ".toList.intercalate (tag.2.map fun value =>
    '"' :: tag.1.toList ++ ['"'] ++ ' ' :: operator.toList ++ ' ' :: quote value.toList) ++ ")".toList

def whereOperator (q : QueryConfig) : String := if q.areTagsAccepted then "==" else "!="

def whereFilter (q : QueryConfig) : Text :=
  let outer := q.tags.map (whereClause (whereOperator q))
  if outer.length > 0 then "lambda: ".toList ++ " AND ".toList.intercalate (outer.mergeSort fun a b => decide (a ≤ b))
  else "lambda: TRUE".toList

def formatValue (value : Text) : Text :=
  if parseFloat value then value
  else if value = "TRUE".toList ∨ value = "FALSE".toList then value
  else quote (escape value)

/-- Whether the field is a function. -/
def Field.isFunc (f : Field) : Bool := f.type = "func"

variable {Nodes : Type}

def window (rule : AlertRule Nodes) (q : QueryConfig) : Except Failure Text :=
  if rule.trigger = deadman then
    if rule.triggerValues.period = "" then .error (.error "period cannot be an empty string in deadman alert")
    else .ok ("var period = ".toList ++ rule.triggerValues.period.toList)
  else if q.fields.any Field.isFunc then do
    valid "group by time" q.groupByTime
    valid "every" rule.every
    return "var period = ".toList ++ q.groupByTime.toList ++ ("\nvar every = ".toList ++ rule.every.toList)
  else .ok []

def commonVars (rule : AlertRule Nodes) : Except Failure Text :=
  match rule.query with
  | none => .error .panic
  | some q => do
    valid "database" q.database
    valid "retention policy" q.retentionPolicy
    valid "measurement" q.measurement
    valid "alert name" rule.name
    valid "trigger type" rule.trigger
    let wind ← window rule q
    let details := if rule.details ≠ "" then
      "\n        var details = ".toList ++ (quote rule.details.toList ++ "\n    ".toList) else []
    return "\n        var db = ".toList ++ (quote (escape q.database.toList) ++
      ("\n        var rp = ".toList ++ (quote (escape q.retentionPolicy.toList) ++
      ("\n        var measurement = ".toList ++ (quote (escape q.measurement.toList) ++
      ("\n        var groupBy = ".toList ++ (groupBy q ++
      ("\n        var whereFilter = ".toList ++ (whereFilter q ++
      ("\n\t\t".toList ++ (wind ++
      ("\n\n\t\tvar name = ".toList ++ (quote (escape rule.name.toList) ++
      ("\n\t\tvar idVar = ".toList ++ (idVar q ++
      ("\n\t\tvar message = ".toList ++ (quote (escape rule.message.toList) ++
      ("\n\t\tvar idTag = 'alertID'\n\t\tvar levelTag = 'level'\n\t\tvar messageField = 'message'\n\t\tvar durationField = 'duration'\n\n        var outputDB = 'chronograf'\n        var outputRP = 'autogen'\n        var outputMeasurement = 'alerts'\n        var triggerType = ".toList ++
      (quote rule.trigger.toList ++ ("\n    ".toList ++ details))))))))))))))))))))

def vars (rule : AlertRule Nodes) : Except Failure Text := do
  let common ← commonVars rule
  if rule.trigger = threshold then
    if rule.triggerValues.rangeValue = "" then
      return "\n\t\t".toList ++ (common ++ ("\n        var crit = ".toList ++
        (formatValue rule.triggerValues.value.toList ++ "\n ".toList)))
    else
      return "\n\t\t\t".toList ++ (common ++ ("\n\t\t\t\t\tvar lower = ".toList ++ (rule.triggerValues.value.toList ++
        ("\n\t\t\t\t\tvar upper = ".toList ++ (rule.triggerValues.rangeValue.toList ++ "\n".toList)))))
  else if rule.trigger = relative then
    return "\n\t\t".toList ++ (common ++ ("\n        var shift = ".toList ++ (rule.triggerValues.shift.toList ++
      ("\n        var crit = ".toList ++ (rule.triggerValues.value.toList ++ "\n ".toList)))))
  else if rule.trigger = deadman then
    return "\n\t\t".toList ++ (common ++ "\n        var threshold = 0.0\n ".toList)
  else .error (.error "Unknown trigger mechanism")

/-! ### Data -/

/-- `fmt.Sprintf("%s", value)`. -/
def FieldValue.text : FieldValue → Text
  | .string s => s.toList
  | .other shown _ _ => shown.toList

def FieldValue.field : FieldValue → Except Failure Text
  | .string s => .ok s.toList
  | .other _ printed type => .error (.error ("field value " ++ printed ++ " is should be string but is " ++ type))

def Arg.isField (a : Arg) : Bool := a.type = "field"

def field (q : QueryConfig) : Except Failure Text :=
  match q.fields with
  | [f] =>
    if f.isFunc then
      match f.args.find? Arg.isField with
      | some arg => arg.value.field
      | none => .error (.error "No fields set in query")
    else f.value.field
  | fs => .error (.error ("expect only one field but found " ++ Nat.repr fs.length))

/-- The field is read as it is. -/
def evalField (f : Text) : Text := "|eval(lambda: ".toList ++ ('"' :: f ++ ['"'] ++ ").as('value')".toList)

/-- The field is aggregated over a window. -/
def windowField (function arg : Text) : Text :=
  "|window().period(period).every(every).align()\n|".toList ++ (function ++ ("(".toList ++ (quote arg ++
    ").as('value')".toList)))

/-- The loop over the fields: only a single one is supported. -/
def fieldValue : List Field → Text → Text
  | [], value => value
  | f :: fs, value =>
    match f.args with
    | arg :: _ =>
      if f.isFunc ∧ arg.isField then value ++ windowField f.value.text arg.value.text
      else if value ≠ [] then value
      else if f.type = "field" then fieldValue fs (evalField f.value.text)
      else fieldValue fs value
    | [] => if value ≠ [] then value else if f.type = "field" then fieldValue fs (evalField f.value.text) else fieldValue fs value

/-- The batch query has the address of the raw text in place of the text. -/
def data (address : String → Text) (rule : AlertRule Nodes) : Except Failure Text :=
  match rule.query with
  | none => .error .panic
  | some q =>
    match q.rawText.filter (· ≠ "") with
    | some raw =>
      let batch := "\n     var data = batch\n     |query(".toList ++ ("'''\n        %!s(*string=0x".toList ++ address raw ++
        ")\n      '''".toList ++ ")\n        .period(period)\n        .every(every)\n        .align()".toList)
      if q.groupByTime ≠ "" then .ok (batch ++ (".groupBy(".toList ++ q.groupByTime.toList ++ ")".toList)) else .ok batch
    | none => do
      let stream := "var data = stream\n    |from()\n        .database(db)\n        .retentionPolicy(rp)\n        .measurement(measurement)\n  \n.groupBy(groupBy)\n.where(whereFilter)\n".toList
      if rule.trigger = deadman then return stream
      else
        let fld ← field q
        let value := fieldValue q.fields []
        return stream ++ (if value = [] then evalField fld else value)

/-! ### Triggers -/

def kapaOperators : List (String × String) :=
  [("greater than", ">"), ("less than", "<"), ("equal to or less than", "<="), ("equal to or greater", ">="),
    ("equal to", "=="), ("not equal to", "!=")]

def kapaOperator (operator : String) : Except Failure String :=
  match kapaOperators.lookup operator with
  | some op => .ok op
  | none => .error (.error ("invalid operator: " ++ operator ++ " is unknown"))

def rangeOperators : List (String × String × String × String) :=
  [("inside range", ">=", "AND", "<="), ("outside range", "<", "OR", ">")]

def rangeOperator (operator : String) : Except Failure (String × String × String) :=
  match rangeOperators.lookup operator with
  | some ops => .ok ops
  | none => .error (.error ("invalid operator: " ++ operator ++ " is unknown"))

def thresholdTrigger (op : String) : String := "\n  var trigger = data\n  |alert()\n    .crit(lambda: \"value\" " ++ op ++ " crit)\n"

def thresholdRangeTrigger (ops : String × String × String) : String :=
  "\n\tvar trigger = data\n\t|alert()\n\t\t.crit(lambda: \"value\" " ++ ops.1 ++ " lower " ++ ops.2.1 ++ " \"value\" " ++
    ops.2.2 ++ " upper)\n"

def relativeAbsoluteTrigger (op : String) : String :=
  "\nvar past = data\n\t|shift(shift)\n\nvar current = data\n\nvar trigger = past\n\t|join(current)\n\t\t.as('past', 'current')\n\t|eval(lambda: float(\"current.value\" - \"past.value\"))\n\t\t.keep()\n\t\t.as('value')\n    |alert()\n        .crit(lambda: \"value\" " ++
    op ++ " crit)\n"

def relativePercentTrigger (op : String) : String :=
  "\nvar past = data\n\t|shift(shift)\n\nvar current = data\n\nvar trigger = past\n\t|join(current)\n\t\t.as('past', 'current')\n\t|eval(lambda: abs(float(\"current.value\" - \"past.value\"))/float(\"past.value\") * 100.0)\n\t\t.keep()\n\t\t.as('value')\n    |alert()\n        .crit(lambda: \"value\" " ++
    op ++ " crit)\n"

def deadmanTrigger : String := "\n  var trigger = data|deadman(threshold, period)\n"

def allAlerts : String :=
  "\n    .message(message)\n\t.id(idVar)\n\t.idTag(idTag)\n\t.levelTag(levelTag)\n\t.messageField(messageField)\n\t.durationField(durationField)\n"

def triggerText (rule : AlertRule Nodes) : Except Failure String :=
  if rule.trigger = deadman then .ok deadmanTrigger
  else if rule.trigger = relative then do
    let op ← kapaOperator rule.triggerValues.operator
    if rule.triggerValues.change = "% change" then return relativePercentTrigger op
    else if rule.triggerValues.change = "change" then return relativeAbsoluteTrigger op
    else .error (.error ("Unknown change type " ++ rule.triggerValues.change))
  else if rule.trigger = threshold then
    if rule.triggerValues.rangeValue = "" then thresholdTrigger <$> kapaOperator rule.triggerValues.operator
    else thresholdRangeTrigger <$> rangeOperator rule.triggerValues.operator
  else .error (.error ("Unknown trigger type: " ++ rule.trigger))

/-- A rule that is new has only its changes of state alerted. -/
def trigger (rule : AlertRule Nodes) : Except Failure String := do
  let text ← triggerText rule
  return text ++ (if rule.id = "" then "\n\t\t\t\t.stateChangesOnly()\n\t\t" else "") ++ allAlerts ++
    (if rule.details ≠ "" then "\n\t.details(details)\n" else "")

/-! ### Outputs -/

def influxOut (rule : AlertRule Nodes) : String :=
  let rename := if rule.trigger = deadman then
    "|eval(lambda: \"emitted\")\n        \t.as('value')\n       \t\t.keep('value', messageField, durationField)" else ""
  "\n\t\t\ttrigger\n\t\t\t" ++ rename ++
    "\n\t\t\t|eval(lambda: float(\"value\"))\n\t\t\t\t.as('value')\n\t\t\t\t.keep()\n\t\t\t|influxDBOut()\n\t\t\t\t.create()\n\t\t\t\t.database(outputDB)\n\t\t\t\t.retentionPolicy(outputRP)\n\t\t\t\t.measurement(outputMeasurement)\n\t\t\t\t.tag('alertName', name)\n\t\t\t\t.tag('triggerType', triggerType)\n\t\t\t"

def httpOut : String := "trigger|httpOut('output')"

/-! ### Scripts -/

/-- The kinds of tokens that the formatter prints as they are and in their order. -/
def Ordinary (t : Token) : Prop := t.typ ∉ [TokenType.error, .regex, .comment, .star, .dbrp]

/-- The tokens that the formatter keeps: it may leave out parentheses and the
last comma of a list, and spell a number in another way. -/
def essence (ts : List Token) : List Token :=
  (ts.filter fun t => t.typ ∉ [TokenType.lparen, .rparen, .comma]).map fun t =>
    if t.typ = .number then ⟨.number, []⟩ else t

/-- The vendored packages, as far as they are used here, and what holds of them:
the formatter prints the tokens that it parses, and a pipeline has none that is
an error. -/
structure Packages where
  unicode : Unicode
  /-- The configuration of the alert handlers. -/
  Nodes : Type
  addAlertNodes : Nodes → Except String Text
  formatTick : Text → Except String Text
  validateTick : Text → Bool
  /-- The hexadecimal digits of the address of a string. -/
  address : String → Text
  formatTick_keeps : ∀ {s t}, formatTick s = .ok t → (∀ tok ∈ lexemes unicode .token s, Ordinary tok) →
    essence (lexemes unicode .token t) = essence (lexemes unicode .token s)
  validateTick_reads : ∀ {s}, validateTick s → ∀ tok ∈ lexemes unicode .token s, tok.typ ≠ .error
  address_hex : ∀ s, ∀ c ∈ address s, c.isDigit ∨ 'a' ≤ c ∧ c ≤ 'f'

variable (K : Packages)

/-- The chaining methods of the alert handlers. -/
def alertServices (rule : AlertRule K.Nodes) : Except Failure Text :=
  match K.addAlertNodes rule.alertNodes with
  | .error e => .error (.error e)
  | .ok node =>
    if K.validateTick ("stream|from()|alert()".toList ++ node) then .ok node else .error (.error "invalid alert service")

/-- What is pasted together. -/
def pasted (rule : AlertRule K.Nodes) : Except Failure Text := do
  let vars ← vars rule
  let data ← data K.address rule
  let trigger ← trigger rule
  let services ← alertServices K rule
  return vars ++ ("\n".toList ++ (data ++ ("\n".toList ++ (trigger.toList ++ (services ++ ("\n".toList ++
    ((influxOut rule).toList ++ ("\n".toList ++ httpOut.toList))))))))

def generate (rule : AlertRule K.Nodes) : Except Failure Text := do
  let raw ← pasted K rule
  match K.formatTick raw with
  | .error e => .error (.error e)
  | .ok tick => if K.validateTick tick then .ok tick else .error (.error "invalid TICKscript")

end Kapacitor
end Chronograf
