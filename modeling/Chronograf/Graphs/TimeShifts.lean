/-
# Queries shifted in time

`buildQueries` of `utils/buildQueriesForGraphs.ts` with `utils/influxql.ts` and
the time ranges of `shared/query/helpers.js`. To a query come the same ones with
both bounds of the time moved back and with the shift told in the aliases.

Which texts are dates, and what time the server reads in a text, are parameters.
A unit or an alias that is missing is the empty one.

Key definitions: `timeRangeType`, `shiftTimeRange`, `quoteIfTimestamp`,
`buildInfluxQLQuery`, `buildQueries`, `Covers`.
Key theorem: `covers_shifted_iff`.
-/
import Chronograf.Types
import Mathlib.Data.List.Infix
import Mathlib.Data.Nat.Notation

namespace Chronograf
namespace TimeShifts

/-! ### Time ranges -/

/-- The upper bound of a range may be missing in two ways. -/
inductive Bound
  | undefined
  | null
  | text (s : String)
  deriving DecidableEq

/-- What the bound is within a text. -/
def Bound.print : Bound → String
  | undefined => "undefined"
  | null => "null"
  | text s => s

def Bound.truthy : Bound → Bool
  | text s => s ≠ ""
  | undefined | null => false

structure TimeRange where
  lower : String
  upper : Bound
  type : Option String

inductive RangeType
  | absolute | relativeLower | relativeUpper | invalid
  deriving DecidableEq

/-- `moment(new Date(bound)).isValid()`: the date of `null` is the epoch. -/
def Bound.isDate (isDate : String → Bool) : Bound → Bool
  | undefined => false
  | null => true
  | text s => isDate s

/-- `/^now/.test(text)` -/
def beginsNow (text : String) : Bool := "now".toList <+: text.toList

/-- No type is accepted: the one that it is compared with is not defined. -/
def timeRangeType (isDate : String → Bool) (range : TimeRange) : RangeType :=
  if !range.upper.truthy ∧ range.lower = "" then .invalid
  else if range.type.any (· ≠ "") then .invalid
  else if isDate range.lower ∧ range.upper.isDate isDate then .absolute
  else if beginsNow range.lower ∧ !range.upper.truthy then .relativeLower
  else if isDate range.lower ∧ beginsNow range.upper.print then .relativeUpper
  else .invalid

structure TimeShift where
  quantity : String
  unit : String
  deriving DecidableEq

def TimeShift.duration (shift : TimeShift) : String := shift.quantity ++ shift.unit

def back (bound : String) (shift : TimeShift) : String := bound ++ " - " ++ shift.duration

def shiftTimeRange (isDate : String → Bool) (range : TimeRange) (shift : TimeShift) : TimeRange :=
  match timeRangeType isDate range with
  | .relativeUpper | .absolute => ⟨back range.lower shift, .text (back range.upper.print shift), some "shifted"⟩
  | .relativeLower => ⟨back range.lower shift, .text (back "now()" shift), some "shifted"⟩
  | .invalid => { range with type := some "unshifted" }

/-! ### Queries -/

inductive FieldType
  | field | wildcard | regex | number | integer | func | other
  deriving DecidableEq

inductive Field
  | mk (value : String) (type : FieldType) (aliasName : String) (args : List Field)

def Field.value : Field → String
  | mk value _ _ _ => value

def Field.type : Field → FieldType
  | mk _ type _ _ => type

def Field.aliasName : Field → String
  | mk _ _ aliasName _ => aliasName

def Field.args : Field → List Field
  | mk _ _ _ args => args

structure GroupBy where
  time : String
  tags : List String

structure QueryConfig where
  database : String
  measurement : String
  retentionPolicy : String
  fields : List Field
  tags : List (String × List String)
  groupBy : GroupBy
  areTagsAccepted : Bool
  rawText : String
  range : Option TimeRange
  fill : Option String
  shifts : List TimeShift

/-- A bound that is a timestamp without quotes yet. -/
def isTimestamp (bound : String) : Bool := 'Z' ∈ bound.toList ∧ '\'' ∉ bound.toList

def quote (bound : String) : String := if isTimestamp bound then "'" ++ bound ++ "'" else bound

def quoteIfTimestamp (range : TimeRange) : String × Bound :=
  (quote range.lower, match range.upper with
    | .text s => .text (quote s)
    | bound => bound)

def doubleQuoted (s : String) : String := "\"" ++ s ++ "\""

mutual

/-- The text of a field; only those at the top have the shift in their alias. -/
def fieldText (shift : String) : Field → String
  | .mk value .field _ _ => if value = "*" then "*" else doubleQuoted value
  | .mk _ .wildcard _ _ => "*"
  | .mk value .regex _ _ => "/" ++ value ++ "/"
  | .mk value .number _ _ => value
  | .mk value .integer _ _ => value
  | .mk value .func aliasName args =>
    value ++ "(" ++ ", ".intercalate (argTexts args) ++ ")" ++
      if aliasName = "" then "" else " AS " ++ doubleQuoted (aliasName ++ shift)
  | .mk _ .other _ _ => ""

def argTexts : List Field → List String
  | [] => []
  | f :: fs => fieldText "" f :: argTexts fs

end

def buildFields (fields : List Field) (shift : String) : String := ", ".intercalate (fields.map (fieldText shift))

def buildSelect (config : QueryConfig) (shift : String) : Option String :=
  if config.database = "" ∨ config.measurement = "" ∨ config.fields.isEmpty then none
  else
    let rpSegment := if config.retentionPolicy = "" then "" else doubleQuoted config.retentionPolicy
    let fullyQualifiedMeasurement := doubleQuoted config.database ++ "." ++ rpSegment ++ "." ++ doubleQuoted config.measurement
    some ("SELECT " ++ buildFields config.fields shift ++ " FROM " ++ fullyQualifiedMeasurement)

def timeClauses (bounds : String × Bound) : List String :=
  (if bounds.1 = "" then [] else ["time > " ++ bounds.1]) ++
    if bounds.2.truthy then ["time < " ++ bounds.2.print] else []

def tagClause (areTagsAccepted : Bool) (tag : String × List String) : String :=
  let operator := if areTagsAccepted then "=" else "!="
  let equals := fun v => doubleQuoted tag.1 ++ operator ++ "'" ++ v ++ "'"
  if 1 < tag.2.length then "(" ++ " OR ".intercalate (tag.2.map equals) ++ ")" else equals (",".intercalate tag.2)

def buildWhereClause (bounds : String × Bound) (tags : List (String × List String)) (areTagsAccepted : Bool) : String :=
  let subClauses := timeClauses bounds ++ tags.map (tagClause areTagsAccepted)
  if subClauses.isEmpty then "" else " WHERE " ++ " AND ".intercalate subClauses

def buildGroupBy (groupBy : GroupBy) : String :=
  let tags := ", ".intercalate (groupBy.tags.map doubleQuoted)
  (if groupBy.time = "" then "" else " GROUP BY time(" ++ (if groupBy.time = "auto" then ":interval:" else groupBy.time) ++ ")") ++
    if groupBy.tags.isEmpty then "" else if groupBy.time = "" then " GROUP BY " ++ tags else ", " ++ tags

def buildFill (config : QueryConfig) : String :=
  if config.groupBy.time = "" then "" else " FILL(" ++ config.fill.getD "null" ++ ")"

def buildInfluxQLQuery (bounds : String × Bound) (config : QueryConfig) (shift : String) : Option String :=
  (buildSelect config shift).map fun select =>
    select ++ buildWhereClause bounds config.tags config.areTagsAccepted ++ buildGroupBy config.groupBy ++ buildFill config

/-- What the alias of a shifted field ends with. -/
def suffix (shift : TimeShift) : String := "_shifted__" ++ shift.quantity ++ "__" ++ shift.unit

/-- The bounds of a query, those of a shifted one for a shift. -/
def boundsOf (isDate : String → Bool) (range : TimeRange) : Option TimeShift → String × Bound
  | none => quoteIfTimestamp range
  | some shift => quoteIfTimestamp (shiftTimeRange isDate range shift)

def buildQuery (isDate : String → Bool) (range : TimeRange) (config : QueryConfig) (shift : Option TimeShift) : Option String :=
  buildInfluxQLQuery (boundsOf isDate range shift) config ((shift.map suffix).getD "")

def QueryConfig.isParsable (config : QueryConfig) : Bool :=
  config.database ≠ "" ∧ config.measurement ≠ "" ∧ !config.fields.isEmpty

/-- The shifts that a query is repeated for. -/
def QueryConfig.shifted (config : QueryConfig) : List TimeShift := config.shifts.filter (·.unit ≠ "")

/-- The texts of the queries; one that has no text is left out. -/
def buildQueries (isDate : String → Bool) (queryConfigs : List QueryConfig) (tR : TimeRange) : List (String × QueryConfig) :=
  queryConfigs.filterMap fun query =>
    let timeRange := query.range.getD tR
    let text := if query.rawText ≠ "" then some query.rawText else buildQuery isDate timeRange query none
    let statement :=
      if !query.shifts.isEmpty ∧ query.isParsable then
        let shiftedQueries := query.shifted.map fun s => (buildQuery isDate timeRange query (some s)).getD ""
        some (text.getD "null" ++ ";" ++ ";".intercalate shiftedQueries)
      else text
    statement.map fun text => (text, query)

/-! ### What the server reads -/

/-- The units of a duration, with their nanoseconds. -/
def units : List (String × ℤ) :=
  [("ns", 1), ("u", 1000), ("µ", 1000), ("ms", 1000000), ("s", 1000000000), ("m", 60 * 1000000000),
    ("h", 3600 * 1000000000), ("d", 24 * 3600 * 1000000000), ("w", 7 * 24 * 3600 * 1000000000)]

/-- The nanoseconds of a shift that is a duration. -/
def TimeShift.length (shift : TimeShift) : Option ℤ :=
  if shift.quantity ≠ "" ∧ shift.quantity.toList.all (·.isDigit) then
    (units.find? (·.1 = shift.unit)).map fun unit => (Nat.ofDigitChars 10 shift.quantity.toList 0 : ℕ) * unit.2
  else none

/-- What is documented of the times in a query: a duration may be taken from a time,
and a text in quotes is a date or no time. -/
structure TimeExpressions (timeValue : ℤ → String → Option ℤ) : Prop where
  now : ∀ now, timeValue now "now()" = some now
  minus : ∀ {now text t shift len}, TimeShift.length shift = some len → timeValue now text = some t →
    timeValue now (back text shift) = some (t - len)
  string : ∀ {now text shift len}, TimeShift.length shift = some len → '\'' ∉ text.toList →
    timeValue now ("'" ++ back text shift ++ "'") = none
  null : ∀ {now shift len}, TimeShift.length shift = some len → timeValue now (back "null" shift) = none

/-! ### A reading of differences -/

/-- A text, from its end: a time from which durations are taken. -/
def readBack (times : String → Option ℤ) : ℕ → List Char → Option ℤ
  | 0, _ => none
  | n + 1, s =>
    match times (String.ofList s.reverse) with
    | some t => some t
    | none =>
      let rest := s.dropWhile (!·.isDigit)
      let before := rest.dropWhile (·.isDigit)
      let shift : TimeShift := ⟨String.ofList (rest.takeWhile (·.isDigit)).reverse, String.ofList (s.takeWhile (!·.isDigit)).reverse⟩
      if [' ', '-', ' '] <+: before then shift.length.bind fun len => (readBack times n (before.drop 3)).map (· - len) else none

/-- The times are `now()` and some dates in quotes. -/
def timesAt (dates : String → Option ℤ) (now : ℤ) (text : String) : Option ℤ :=
  if text = "now()" then some now
  else match text.toList with
    | '\'' :: s => if s.getLast? = some '\'' then dates (String.ofList s.dropLast) else none
    | _ => none

def readTime (dates : String → Option ℤ) (now : ℤ) (text : String) : Option ℤ :=
  readBack (timesAt dates now) (text.toList.length + 1) text.toList.reverse

theorem readBack_mono {times : String → Option ℤ} : ∀ {n m : ℕ} {s : List Char} {t : ℤ}, n ≤ m → readBack times n s = some t →
    readBack times m s = some t
  | 0, _, _, _, _, h => nomatch h
  | n + 1, 0, _, _, hle, _ => absurd hle (Nat.not_succ_le_zero n)
  | n + 1, m + 1, s, t, hle, h => by
    unfold readBack at h ⊢
    split at h
    · next u hu => exact h
    · next hu =>
      simp only at h ⊢
      split_ifs at h ⊢ with hbefore
      obtain ⟨len, hlen, h⟩ := Option.bind_eq_some_iff.mp h
      obtain ⟨u, hu, rfl⟩ := Option.map_eq_some_iff.mp h
      rw [hlen, Option.bind_some, readBack_mono (Nat.le_of_succ_le_succ hle) hu]
      rfl

theorem length_spec {shift : TimeShift} {len : ℤ} (h : shift.length = some len) : shift.quantity.toList ≠ [] ∧
    (∀ c ∈ shift.quantity.toList, c.isDigit = true) ∧ shift.unit.toList ≠ [] ∧
      ∀ c ∈ shift.unit.toList, c.isDigit = false ∧ c ≠ 'Z' ∧ c ≠ '\'' ∧ c ≠ ')' := by
  unfold TimeShift.length at h
  split_ifs at h with hdigits
  obtain ⟨unit, hunit, -⟩ := Option.map_eq_some_iff.mp h
  have hall : ∀ unit ∈ units, unit.1.toList ≠ [] ∧ ∀ c ∈ unit.1.toList, c.isDigit = false ∧ c ≠ 'Z' ∧ c ≠ '\'' ∧ c ≠ ')' := by
    simp [units]
  have hname : unit.1 = shift.unit := by simpa using List.find?_some hunit
  obtain ⟨hne, hchars⟩ := hall unit (List.mem_of_find?_eq_some hunit)
  refine ⟨fun hnil => hdigits.1 (String.toList_injective hnil), List.all_eq_true.mp hdigits.2, hname ▸ hne, hname ▸ hchars⟩

theorem readBack_back {times : String → Option ℤ} {shift : TimeShift} {len : ℤ} (hlen : shift.length = some len) (bound : String)
    (htimes : times (back bound shift) = none) (n : ℕ) :
    readBack times (n + 1) (back bound shift).toList.reverse = (readBack times n bound.toList.reverse).map (· - len) := by
  obtain ⟨hne, hdigits, -, hunit⟩ := length_spec hlen
  have hsplit : (back bound shift).toList.reverse =
      shift.unit.toList.reverse ++ (shift.quantity.toList.reverse ++ ' ' :: '-' :: ' ' :: bound.toList.reverse) := by
    simp [back, TimeShift.duration]
  have hletters : ∀ c ∈ shift.unit.toList.reverse, (!c.isDigit) = true := fun c hc => by
    rw [(hunit c (List.mem_reverse.mp hc)).1]
    rfl
  have hnumber : ∀ c ∈ shift.quantity.toList.reverse, c.isDigit = true := fun c hc => hdigits c (List.mem_reverse.mp hc)
  obtain ⟨d, ds, hd⟩ := List.exists_cons_of_ne_nil (List.reverse_eq_nil_iff.not.mpr hne)
  have hfirst : (!d.isDigit) = false := by
    rw [hnumber d (hd ▸ List.mem_cons_self)]
    rfl
  have htake : (shift.unit.toList.reverse ++ (shift.quantity.toList.reverse ++ ' ' :: '-' :: ' ' :: bound.toList.reverse)).takeWhile
      (!·.isDigit) = shift.unit.toList.reverse := by
    rw [List.takeWhile_append_of_pos hletters, hd, List.cons_append, List.takeWhile_cons_of_neg (by simp [hfirst]), List.append_nil]
  have hdrop : (shift.unit.toList.reverse ++ (shift.quantity.toList.reverse ++ ' ' :: '-' :: ' ' :: bound.toList.reverse)).dropWhile
      (!·.isDigit) = shift.quantity.toList.reverse ++ ' ' :: '-' :: ' ' :: bound.toList.reverse := by
    rw [List.dropWhile_append_of_pos hletters, hd, List.cons_append, List.dropWhile_cons_of_neg (by simp [hfirst])]
  have hquantity : (shift.quantity.toList.reverse ++ ' ' :: '-' :: ' ' :: bound.toList.reverse).takeWhile (·.isDigit) =
      shift.quantity.toList.reverse := by
    rw [List.takeWhile_append_of_pos hnumber, List.takeWhile_cons_of_neg (by decide), List.append_nil]
  have hbefore : (shift.quantity.toList.reverse ++ ' ' :: '-' :: ' ' :: bound.toList.reverse).dropWhile (·.isDigit) =
      ' ' :: '-' :: ' ' :: bound.toList.reverse := by
    rw [List.dropWhile_append_of_pos hnumber, List.dropWhile_cons_of_neg (by decide)]
  have hback : String.ofList (back bound shift).toList.reverse.reverse = back bound shift := by
    rw [List.reverse_reverse, String.ofList_toList]
  rw [readBack, hback, htimes, hsplit]
  simp only [htake, hdrop, hquantity, hbefore, List.reverse_reverse, String.ofList_toList]
  rw [if_pos (by simp), hlen]
  rfl

theorem last_back {shift : TimeShift} {len : ℤ} (hlen : shift.length = some len) (bound : String) :
    ∃ c, (back bound shift).toList.getLast? = some c ∧ c ≠ 'Z' ∧ c ≠ '\'' ∧ c ≠ ')' := by
  obtain ⟨-, -, hne, hunit⟩ := length_spec hlen
  refine ⟨shift.unit.toList.getLast hne, ?_, (hunit _ (List.getLast_mem hne)).2⟩
  have hsplit : (back bound shift).toList = (bound.toList ++ [' ', '-', ' '] ++ shift.quantity.toList) ++ shift.unit.toList := by
    simp [back, TimeShift.duration]
  rw [hsplit, List.getLast?_append_of_ne_nil _ hne, List.getLast?_eq_getLast_of_ne_nil hne]

theorem timesAt_back {dates : String → Option ℤ} {now : ℤ} {shift : TimeShift} {len : ℤ} (hlen : shift.length = some len)
    (bound : String) : timesAt dates now (back bound shift) = none := by
  obtain ⟨c, hlast, -, hquote, hparen⟩ := last_back hlen bound
  unfold timesAt
  split_ifs with hnow
  · rw [hnow] at hlast
    exact absurd (Option.some.inj hlast).symm hparen
  · split
    · next s hs =>
      rw [hs] at hlast
      refine if_neg fun hend => hquote ?_
      cases s with
      | nil => cases hend
      | cons d s =>
        rw [List.getLast?_cons_cons, hend] at hlast
        exact (Option.some.inj hlast).symm
    · rfl

theorem timesAt_quoted (dates : String → Option ℤ) (now : ℤ) (date : String) :
    timesAt dates now ("'" ++ date ++ "'") = dates date := by
  have hlist : ("'" ++ date ++ "'").toList = '\'' :: (date.toList ++ ['\'']) := by simp
  have hne : "'" ++ date ++ "'" ≠ "now()" := by
    intro heq
    rw [heq] at hlist
    exact absurd hlist (by simp)
  unfold timesAt
  rw [if_neg hne, hlist]
  simp only [List.getLast?_append, List.getLast?_singleton, Option.some_or, if_true, List.dropLast_concat, String.ofList_toList]

theorem readTime_quoted {dates : String → Option ℤ} {date : String} {t : ℤ} (h : dates date = some t) (now : ℤ) :
    readTime dates now ("'" ++ date ++ "'") = some t := by
  unfold readTime
  rw [readBack, List.reverse_reverse, String.ofList_toList, timesAt_quoted, h]

/-- It is as documented, if dates end with `Z`. -/
theorem timeExpressions_readTime {dates : String → Option ℤ} (h : ∀ text t, dates text = some t → text.toList.getLast? = some 'Z') :
    TimeExpressions (readTime dates) := by
  refine ⟨fun now => rfl, fun {now text t shift len} hlen ht => ?_, fun {now text shift len} hlen _ => ?_, fun {now shift len} hlen => ?_⟩
  · unfold readTime at ht ⊢
    rw [readBack_back hlen text (timesAt_back hlen text), readBack_mono (by simp [back]) ht]
    rfl
  · obtain ⟨c, hlast, hZ, -, -⟩ := last_back hlen text
    have htimes : timesAt dates now ("'" ++ back text shift ++ "'") = none := by
      rw [timesAt_quoted]
      cases hdate : dates (back text shift) with
      | none => rfl
      | some t => exact absurd (Option.some.inj (hlast.symm.trans (h _ t hdate))) hZ
    have hreverse : ("'" ++ back text shift ++ "'").toList.reverse = '\'' :: ((back text shift).toList.reverse ++ ['\'']) := by
      simp
    have hback : String.ofList ("'" ++ back text shift ++ "'").toList.reverse.reverse = "'" ++ back text shift ++ "'" := by
      rw [List.reverse_reverse, String.ofList_toList]
    unfold readTime
    rw [readBack, hback, htimes, hreverse]
    simp only
    split_ifs with hbefore
    · -- the quote at the end is none of a unit
      refine Option.bind_eq_none_iff.mpr fun len' hlen' => absurd hlen' ?_
      intro hlen'
      obtain ⟨-, -, -, hunit⟩ := length_spec hlen'
      refine (hunit '\'' ?_).2.2.1 rfl
      rw [String.toList_ofList, List.mem_reverse, List.takeWhile_cons_of_pos (by decide)]
      exact List.mem_cons_self
    · rfl
  · have hnull : ∀ n, readBack (timesAt dates now) n "null".toList.reverse = none
      | 0 => rfl
      | n + 1 => by
        rw [readBack]
        rfl
    unfold readTime
    rw [readBack_back hlen "null" (timesAt_back hlen "null"), hnull]
    rfl

/-- The points selected are those between `lo` and `hi`; without an upper bound, up to now. -/
def Covers (timeValue : ℤ → String → Option ℤ) (now : ℤ) (bounds : String × Bound) (lo hi : ℤ) : Prop :=
  timeValue now bounds.1 = some lo ∧ if bounds.2.truthy then timeValue now bounds.2.print = some hi else hi = now

section Reading

variable {isDate : String → Bool} {range : TimeRange} {shift : TimeShift} {len : ℤ}

theorem duration_plain (hlen : shift.length = some len) : ∀ c ∈ shift.duration.toList, c ≠ 'Z' ∧ c ≠ '\'' := by
  unfold TimeShift.length at hlen
  split_ifs at hlen with hdigits
  obtain ⟨n, hunit, -⟩ := Option.map_eq_some_iff.mp hlen
  intro c hc
  rw [TimeShift.duration, String.toList_append, List.mem_append] at hc
  rcases hc with hc | hc
  · have hdigit := List.all_eq_true.mp hdigits.2 c hc
    constructor <;> rintro rfl <;> simp at hdigit
  · have hall : ∀ unit ∈ units, ∀ c ∈ unit.1.toList, c ≠ 'Z' ∧ c ≠ '\'' := by simp [units]
    have hname : n.1 = shift.unit := by simpa using List.find?_some hunit
    rw [← hname] at hc
    exact hall n (List.mem_of_find?_eq_some hunit) c hc

theorem isTimestamp_back (hlen : shift.length = some len) (bound : String) : isTimestamp (back bound shift) = isTimestamp bound := by
  have hplain := duration_plain hlen
  have hZ : 'Z' ∉ shift.duration.toList := fun h => (hplain 'Z' h).1 rfl
  have hquote : '\'' ∉ shift.duration.toList := fun h => (hplain '\'' h).2 rfl
  simp [isTimestamp, back, hZ, hquote]

theorem quote_of_timestamp {bound : String} (h : isTimestamp bound = true) : quote bound = "'" ++ bound ++ "'" := if_pos h

theorem quote_of_plain {bound : String} (h : isTimestamp bound = false) : quote bound = bound :=
  if_neg (Bool.eq_false_iff.mp h)

variable {timeValue : ℤ → String → Option ℤ} (h : TimeExpressions timeValue)

include h in
/-- A bound that was moved back is read if and only if it is not put in quotes. -/
theorem timeValue_back (hlen : shift.length = some len) {now t : ℤ} {bound : String} (ht : timeValue now (quote bound) = some t) :
    timeValue now (quote (back bound shift)) = if isTimestamp bound then none else some (t - len) := by
  cases hbound : isTimestamp bound with
  | true =>
    have hquote : '\'' ∉ bound.toList := by
      unfold isTimestamp at hbound
      exact (of_decide_eq_true hbound).2
    rw [quote_of_timestamp (by rw [isTimestamp_back hlen, hbound])]
    exact h.string hlen hquote
  | false =>
    rw [quote_of_plain hbound] at ht
    rw [quote_of_plain (by rw [isTimestamp_back hlen, hbound])]
    exact h.minus hlen ht

/-- The shifted query selects exactly the points that are in the range when they are moved by the shift. -/
def SelectsShifted (isDate : String → Bool) (timeValue : ℤ → String → Option ℤ) (range : TimeRange) (shift : TimeShift) (len : ℤ) : Prop :=
  ∀ now, ∃ lo hi lo' hi', Covers timeValue now (boundsOf isDate range none) lo hi ∧
    Covers timeValue now (boundsOf isDate range (some shift)) lo' hi' ∧ ∀ t, lo' < t ∧ t < hi' ↔ lo < t + len ∧ t + len < hi

/-- The server reads the range, and no bound that is moved is a timestamp. -/
structure Shiftable (isDate : String → Bool) (timeValue : ℤ → String → Option ℤ) (range : TimeRange) : Prop where
  read : ∀ now, ∃ lo hi, Covers timeValue now (boundsOf isDate range none) lo hi
  lower : isTimestamp range.lower = false
  upper : timeRangeType isDate range = .relativeLower ∨ range.upper.truthy ∧ isTimestamp range.upper.print = false

theorem upper_of_relativeLower (hkind : timeRangeType isDate range = .relativeLower) : range.upper.truthy = false := by
  unfold timeRangeType at hkind
  split_ifs at hkind with h₁ h₂ h₃ h₄
  simpa using h₄.2

theorem upper_of_other (hempty : isDate "" = false) (haccepted : timeRangeType isDate range ≠ .invalid)
    (hkind : timeRangeType isDate range ≠ .relativeLower) : range.upper = .null ∨ range.upper.truthy = true := by
  have hnow : beginsNow "" = false := by decide
  have hundefined : beginsNow "undefined" = false := by decide
  unfold timeRangeType at haccepted hkind
  split_ifs at haccepted hkind with h₁ h₂ h₃ h₄ h₅
  all_goals cases hupper : range.upper with
    | null => exact .inl rfl
    | undefined => simp_all [Bound.isDate, Bound.print, Bound.truthy]
    | text u =>
      refine .inr (decide_eq_true fun hu => ?_)
      subst hu
      simp_all [Bound.isDate, Bound.print]

theorem boundsOf_relativeLower (hkind : timeRangeType isDate range = .relativeLower) :
    boundsOf isDate range (some shift) = (quote (back range.lower shift), .text (quote (back "now()" shift))) := by
  simp [boundsOf, shiftTimeRange, hkind, quoteIfTimestamp]

theorem boundsOf_other (haccepted : timeRangeType isDate range ≠ .invalid) (hkind : timeRangeType isDate range ≠ .relativeLower) :
    boundsOf isDate range (some shift) = (quote (back range.lower shift), .text (quote (back range.upper.print shift))) := by
  unfold boundsOf shiftTimeRange quoteIfTimestamp
  cases hcase : timeRangeType isDate range with
  | invalid => exact absurd hcase haccepted
  | relativeLower => exact absurd hcase hkind
  | absolute => rfl
  | relativeUpper => rfl

theorem lower_boundsOf (haccepted : timeRangeType isDate range ≠ .invalid) :
    (boundsOf isDate range (some shift)).1 = quote (back range.lower shift) := by
  by_cases hkind : timeRangeType isDate range = .relativeLower
  · rw [boundsOf_relativeLower hkind]
  · rw [boundsOf_other haccepted hkind]

theorem quote_ne {bound : String} (h : bound ≠ "") : quote bound ≠ "" := by
  unfold quote
  split_ifs
  · simp
  · exact h

theorem truthy_back (bound : String) (shift : TimeShift) : (Bound.text (quote (back bound shift))).truthy = true :=
  decide_eq_true (quote_ne (by simp [back]))

theorem covers_text {now lo hi : ℤ} {lower upper : String} (hupper : (Bound.text upper).truthy = true) :
    Covers timeValue now (lower, .text upper) lo hi ↔ timeValue now lower = some lo ∧ timeValue now upper = some hi := by
  simp [Covers, hupper, Bound.print]

/-- The range as it is read. -/
theorem covers_range {now lo hi : ℤ} (hupper : range.upper.truthy = true) :
    Covers timeValue now (boundsOf isDate range none) lo hi ↔
      timeValue now (quote range.lower) = some lo ∧ timeValue now (quote range.upper.print) = some hi := by
  unfold boundsOf quoteIfTimestamp
  cases hcase : range.upper with
  | undefined => simp [hcase, Bound.truthy] at hupper
  | null => simp [hcase, Bound.truthy] at hupper
  | text u =>
    rw [hcase] at hupper
    have hu : u ≠ "" := of_decide_eq_true hupper
    exact covers_text (decide_eq_true (quote_ne hu))

/-- Without an upper bound it is read up to now. -/
theorem covers_open {now lo hi : ℤ} (hupper : range.upper.truthy = false) (hcovers : Covers timeValue now (boundsOf isDate range none) lo hi) :
    hi = now := by
  have hopen : (boundsOf isDate range none).2.truthy = false := by
    unfold boundsOf quoteIfTimestamp
    cases hcase : range.upper with
    | undefined => rfl
    | null => rfl
    | text u =>
      rw [hcase] at hupper
      obtain rfl : u = "" := by simpa [Bound.truthy] using hupper
      show (Bound.text (quote "")).truthy = false
      decide
  have hhi := hcovers.2
  rwa [hopen, if_neg Bool.false_ne_true] at hhi

include h in
/-- Shifted queries select the right points if and only if the range can be shifted. -/
theorem selectsShifted_iff (hempty : isDate "" = false) (haccepted : timeRangeType isDate range ≠ .invalid)
    (hlen : shift.length = some len) : SelectsShifted isDate timeValue range shift len ↔ Shiftable isDate timeValue range := by
  constructor
  · intro hselects
    obtain ⟨lo, hi, lo', hi', hcovers, hshifted, -⟩ := hselects 0
    refine ⟨fun now => ?_, ?_, ?_⟩
    · obtain ⟨lo, hi, -, -, hcovers, -⟩ := hselects now
      exact ⟨lo, hi, hcovers⟩
    · have hlower := hshifted.1
      rw [lower_boundsOf haccepted, timeValue_back h hlen hcovers.1] at hlower
      by_contra hbound
      rw [if_pos (by simpa using hbound)] at hlower
      cases hlower
    · by_cases hkind : timeRangeType isDate range = .relativeLower
      · exact .inl hkind
      rw [boundsOf_other haccepted hkind, covers_text (truthy_back _ _)] at hshifted
      rcases upper_of_other hempty haccepted hkind with hnull | htruthy
      · have hplain : quote (back "null" shift) = back "null" shift := quote_of_plain (by rw [isTimestamp_back hlen]; decide)
        rw [hnull, Bound.print, hplain, h.null hlen] at hshifted
        cases hshifted.2
      · refine .inr ⟨htruthy, ?_⟩
        have hupper := hshifted.2
        rw [timeValue_back h hlen ((covers_range htruthy).mp hcovers).2] at hupper
        by_contra hbound
        rw [if_pos (by simpa using hbound)] at hupper
        cases hupper
  · intro hshiftable now
    obtain ⟨lo, hi, hcovers⟩ := hshiftable.read now
    refine ⟨lo, hi, lo - len, hi - len, hcovers, ?_, fun t => by omega⟩
    have hlower : timeValue now (quote (back range.lower shift)) = some (lo - len) := by
      rw [timeValue_back h hlen hcovers.1, hshiftable.lower]
      rfl
    by_cases hkind : timeRangeType isDate range = .relativeLower
    · have hplain : quote (back "now()" shift) = back "now()" shift := quote_of_plain (by rw [isTimestamp_back hlen]; decide)
      rw [boundsOf_relativeLower hkind, covers_text (truthy_back _ _), hplain]
      rw [covers_open (upper_of_relativeLower hkind) hcovers]
      exact ⟨hlower, h.minus hlen (h.now now)⟩
    · obtain ⟨htruthy, hupper⟩ := hshiftable.upper.resolve_left hkind
      rw [boundsOf_other haccepted hkind, covers_text (truthy_back _ _), timeValue_back h hlen ((covers_range htruthy).mp hcovers).2, hupper]
      exact ⟨hlower, rfl⟩

end Reading

end TimeShifts
end Chronograf
