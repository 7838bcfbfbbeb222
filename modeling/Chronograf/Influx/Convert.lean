/-
# From a query to a query config

`influx/query.go`. A query that can be edited as a form becomes its form; for
every other one the config is the text of the query. The parser and `Reduce` are
parameters. A type assertion that does not hold yields a nil pointer, which is
then read: a panic. The ID of a config, the upper bound of its range and its
shifts are never set and left out.

Key definitions: `QueryConfig`, `isTagFilter`, `isTagLogic`, `hasTimeRange`, `convert`.
-/
import Chronograf.Influx.Influxql
import Mathlib.Data.List.Dedup

namespace Chronograf
namespace Influx

open Influxql

/-! ### Query configs -/
/-- A field, or a function of fields. -/
structure QueryConfig.Field where
  value : String
  type : String
  aliasName : String
  args : List QueryConfig.Field

structure GroupBy where
  time : String
  tags : List String
  deriving DecidableEq

/-- The tags are in order of their first appearance. -/
structure QueryConfig where
  database : String
  measurement : String
  retentionPolicy : String
  fields : List QueryConfig.Field
  tags : List (String × List String)
  groupBy : GroupBy
  areTagsAccepted : Bool
  fill : String
  rawText : Option String
  rangeLower : Option String

/-! ### Times and durations -/

/-- `unicode.ToLower`, as far as it yields ASCII letters of words without `k`. -/
def lowerChar (c : Char) : Char := if c = 'İ' then 'i' else c.toLower

def toLower (s : String) : String := String.ofList (s.toList.map lowerChar)

def isTime : Expr → Bool
  | .paren e => isTime e
  | .varRef v _ => toLower v = "time"
  | _ => false

def isNow : Expr → Bool
  | .paren e => isNow e
  | .call name args => toLower name = "now" ∧ args.length = 0
  | _ => false

def isDuration : Expr → Option ℤ
  | .paren e => isDuration e
  | .duration d => some d
  | _ => none

/-- How long ago the time is: a duration before now, or now itself. -/
def isPreviousTime : Expr → Option ℤ
  | .paren e => isPreviousTime e
  | .binary op lhs rhs => if (isNow lhs || isNow rhs) && op = .sub then isDuration lhs <|> isDuration rhs else none
  | e => if isNow e then some 0 else none

def isOrdering : Operator → Bool
  | .lt | .lte | .gt | .gte => true
  | _ => false

def isTimeRange : Expr → Option ℤ
  | .paren e => isTimeRange e
  | .binary op lhs rhs =>
    if (isTime lhs || isTime rhs) && isOrdering op then isPreviousTime lhs <|> isPreviousTime rhs else none
  | _ => none

mutual

/-- The walk of `timeRangeVisitor` from what it has found so far: the range found
last counts, and nothing is looked for within a range. -/
def visit (found : Option ℤ) : Expr → Option ℤ
  | .binary op lhs rhs => isTimeRange (.binary op lhs rhs) <|> visit (visit found lhs) rhs
  | .call _ args => visitArgs found args
  | .paren e => isTimeRange (.paren e) <|> visit found e
  | _ => found

def visitArgs (found : Option ℤ) : List Expr → Option ℤ
  | [] => found
  | e :: es => visitArgs (visit found e) es

end

def hasTimeRange (e : Expr) : Option ℤ := visit none e

/-- The last `prec` digits as a fraction without trailing zeros. -/
def fmtFrac (u prec : ℕ) : List Char :=
  match ((Float64.lastDigits prec u).reverse.dropWhile (· = '0')).reverse with
  | [] => []
  | ds => '.' :: ds

/-- `time.Duration.String`. -/
def durationString (d : ℤ) : List Char :=
  let u := d.natAbs
  let sign := if d < 0 then ['-'] else []
  if u = 0 then ['0', 's']
  else if u < 1000 then sign ++ Nat.toDigits 10 u ++ ['n', 's']
  else if u < 1000000 then sign ++ Nat.toDigits 10 (u / 1000) ++ fmtFrac u 3 ++ ['µ', 's']
  else if u < 1000000000 then sign ++ Nat.toDigits 10 (u / 1000000) ++ fmtFrac u 6 ++ ['m', 's']
  else
    let secs := u / 1000000000
    sign ++ (if secs / 3600 = 0 then [] else Nat.toDigits 10 (secs / 3600) ++ ['h']) ++
      (if secs / 60 = 0 then [] else Nat.toDigits 10 (secs / 60 % 60) ++ ['m']) ++
      Nat.toDigits 10 (secs % 60) ++ fmtFrac u 9 ++ ['s']

/-- A text that ends in `suffix` loses its last two characters. -/
def dropZero (suffix s : List Char) : List Char := if suffix <:+ s then s.take (s.length - 2) else s

def shortDur (d : ℤ) : String :=
  String.ofList (dropZero ['h', '0', 'm'] (dropZero ['m', '0', 's'] (durationString d)))

/-! ### Tag filters -/

structure TagFilter where
  op : String
  tag : String
  value : String
  deriving DecidableEq

/-- How `Convert` ends without a config. -/
inductive Failure
  | parse
  | panic
  deriving DecidableEq

def isVarRef : Expr → Bool
  | .paren e => isVarRef e
  | .varRef _ _ => true
  | _ => false

def isString : Expr → Bool
  | .paren e => isString e
  | .string _ => true
  | _ => false

/-- The operator of a filter. -/
def filterOp : Operator → Option String
  | .eq => some "=="
  | .neq => some "!="
  | _ => none

def isTagFilter : Expr → Except Failure (Option TagFilter)
  | .paren e => isTagFilter e
  | .binary operator lhs rhs =>
    match filterOp operator with
    | none => .ok none
    | some op =>
      if !((isString lhs || isString rhs) && (isVarRef lhs || isVarRef rhs)) then .ok none
      else if isVarRef lhs then
        match lhs, rhs with
        | .varRef t _, .string v => .ok (some ⟨op, t, v⟩)
        | _, _ => .error .panic
      else
        match rhs, lhs with
        | .varRef t _, .string v => .ok (some ⟨op, t, v⟩)
        | _, _ => .error .panic
  | _ => .ok none

/-- The different operators of filters. -/
def opsOf (fs : List TagFilter) : List String := (fs.map (·.op)).dedup

/-- What the logic of two sides is together: there must only be one kind of ops. -/
def joined (lhs rhs : Option (List TagFilter)) : Option (List TagFilter) :=
  match lhs, rhs with
  | some tlLHS, some tlRHS => if 1 < (opsOf (tlLHS ++ tlRHS)).length then none else some (tlLHS ++ tlRHS)
  | _, _ => none

/-- Two filters of one tag with one operator, either of which is to hold. -/
def sameTag (op : Operator) (lhs rhs : Option TagFilter) : Option (List TagFilter) :=
  match lhs, rhs with
  | some l, some r => if l.tag = r.tag ∧ l.op = r.op ∧ op = .or then some [l, r] else none
  | _, _ => none

/-- The filter on one side, if there is a time range as well. -/
def besideTime (tm : Bool) (lhs rhs : Option TagFilter) : Option (List TagFilter) :=
  if tm then (lhs <|> rhs).map ([·]) else none

def isTagLogic : Expr → Except Failure (Option (List TagFilter))
  | .paren e => isTagLogic e
  | .binary op lhs rhs =>
    if (isTimeRange (.binary op lhs rhs)).isSome then .ok (some [])
    else do
      match ← isTagFilter (.binary op lhs rhs) with
      | some tf => return some [tf]
      | none =>
        let l ← isTagFilter lhs
        let r ← isTagFilter rhs
        match sameTag op l r with
        | some fs => return some fs
        | none =>
          if op ≠ .and ∧ op ≠ .or then return none
          else
            match besideTime ((isTimeRange lhs).isSome || (isTimeRange rhs).isSome) l r with
            | some fs => return some fs
            | none => return joined (← isTagLogic lhs) (← isTagLogic rhs)
  | _ => .ok none

/-! ### The parts of a config -/

def supportedFuncs : List String :=
  ["mean", "median", "count", "min", "max", "sum", "first", "last", "spread", "stddev", "percentile", "top", "bottom"]

def fillConfig : Fill → String
  | .null => "null"
  | .none => "none"
  | .number v => v.text
  | .previous => "previous"
  | .linear => "linear"

/-- A dimension taken into the config so far. -/
def dimension (intervalTime : Bool) (fill : Fill) (qc : QueryConfig) : Expr → Option QueryConfig
  | .call name args =>
    if name ≠ "time" then none
    else
      match args with
      | [.duration lit] =>
        some { qc with
          groupBy := { qc.groupBy with time := if intervalTime then "auto" else formatDuration lit }
          fill := fillConfig fill }
      | _ => none
  | .varRef v _ => some { qc with groupBy := { qc.groupBy with tags := qc.groupBy.tags ++ [v] } }
  | _ => none

/-- `strconv.FormatFloat(x, 'f', -1, 64)`. -/
def formatFloat (x : Float64) : String := String.ofList (x.sign ++ x.shortestDigits.formatF)

def fieldArg : Expr → Option QueryConfig.Field
  | .varRef v _ => some ⟨v, "field", "", []⟩
  | .integer i => some ⟨Int.repr i, "integer", "", []⟩
  | .number x => some ⟨formatFloat x, "number", "", []⟩
  | .regex r => some ⟨r, "regex", "", []⟩
  | .wildcard _ => some ⟨"*", "wildcard", "", []⟩
  | _ => none

def field (fld : Influxql.Field) : Option QueryConfig.Field :=
  match fld.expr with
  | .call name args => if name ∈ supportedFuncs then (args.mapM fieldArg).map (⟨name, "func", fld.aliasName, ·⟩) else none
  | .varRef v type => if type = .unknown then some ⟨v, "field", fld.aliasName, []⟩ else none
  | _ => none

/-- A value added to those of its tag. -/
def addTag (tags : List (String × List String)) (f : TagFilter) : List (String × List String) :=
  if ∃ t ∈ tags, t.1 = f.tag then tags.map fun t => if t.1 = f.tag then (t.1, t.2 ++ [f.value]) else t
  else tags ++ [(f.tag, [f.value])]

/-! ### The conversion -/

/-- A statement: a `SELECT` with where it writes to, or another one. -/
inductive Statement
  | select (stmt : SelectStatement) (target : Option Measurement)
  | other

def emptyConfig : QueryConfig := ⟨"", "", "", [], [], ⟨"", []⟩, false, "", none, none⟩

/-- The config of a statement without its condition. -/
def selection (intervalTime : Bool) (stmt : SelectStatement) (target : Option Measurement) : Option QueryConfig :=
  if stmt.limit ≠ 0 ∨ stmt.offset ≠ 0 ∨ stmt.slimit ≠ 0 ∨ stmt.soffset ≠ 0 then none
  else if 0 < stmt.sortFields.length then none
  else if target.isSome then none
  else
    match stmt.sources with
    | [measurement] =>
      if measurement.regex.isSome then none
      else do
        let qc ← stmt.dimensions.foldlM (dimension intervalTime stmt.fill)
          { emptyConfig with
            database := measurement.database
            retentionPolicy := measurement.retentionPolicy
            measurement := measurement.name }
        let fields ← stmt.fields.mapM field
        return { qc with fields := fields }
    | _ => none

section Selection

variable {interval : Bool} {fill : Fill} {qc qc' : QueryConfig}

theorem dimension_kept {e : Expr} (h : dimension interval fill qc e = some qc') :
    qc'.tags = qc.tags ∧ qc'.rawText = qc.rawText ∧ qc'.rangeLower = qc.rangeLower := by
  unfold dimension at h
  split at h
  · split at h
    · cases h
    · split at h <;> cases h
      exact ⟨rfl, rfl, rfl⟩
  · cases h
    exact ⟨rfl, rfl, rfl⟩
  · cases h

theorem dimensions_kept : ∀ {es : List Expr} {qc qc' : QueryConfig}, es.foldlM (dimension interval fill) qc = some qc' →
    qc'.tags = qc.tags ∧ qc'.rawText = qc.rawText ∧ qc'.rangeLower = qc.rangeLower
  | [], qc, qc', h => by
    cases h
    exact ⟨rfl, rfl, rfl⟩
  | e :: es, qc, qc', h => by
    rw [List.foldlM_cons, Option.bind_eq_bind, Option.bind_eq_some_iff] at h
    obtain ⟨next, hnext, hrest⟩ := h
    obtain ⟨htags, hraw, hrange⟩ := dimensions_kept hrest
    obtain ⟨htags', hraw', hrange'⟩ := dimension_kept hnext
    exact ⟨htags.trans htags', hraw.trans hraw', hrange.trans hrange'⟩

/-- Without its condition a config has no tags and no range, and is no text. -/
theorem selection_empty {stmt : SelectStatement} {target : Option Measurement} (h : selection interval stmt target = some qc) :
    qc.tags = [] ∧ qc.rawText = none ∧ qc.rangeLower = none := by
  unfold selection at h
  split_ifs at h
  split at h
  · split_ifs at h
    rw [Option.bind_eq_bind, Option.bind_eq_some_iff] at h
    obtain ⟨qc', hdims, h⟩ := h
    rw [Option.bind_eq_bind, Option.bind_eq_some_iff] at h
    obtain ⟨fields, -, h⟩ := h
    cases h
    exact dimensions_kept hdims
  · cases h

end Selection

/-- The filters taken into the config. -/
def withFilters (qc : QueryConfig) (logic : List TagFilter) : Option QueryConfig :=
  if 0 < logic.length ∧ (opsOf logic).length ≠ 1 then none
  else some { qc with tags := logic.foldl addTag qc.tags, areTagsAccepted := "==" ∈ opsOf logic }

/-- The condition taken into the config. -/
def withCondition (reduce : Expr → Expr) (itsDashboardTime : Bool) (qc : QueryConfig) :
    Option Expr → Except Failure (Option QueryConfig)
  | none => .ok (some qc)
  | some condition => do
    match ← isTagLogic (reduce condition) with
    | none => return none
    | some logic =>
      return (withFilters qc logic).map fun qc =>
        match hasTimeRange condition with
        | some dur => if itsDashboardTime then qc else { qc with rangeLower := some ("now() - " ++ shortDur dur) }
        | none => qc

def interval : String := ":interval:"

def dashboardTime : String := ":dashboardTime:"

def contains (s sub : String) : Bool := sub.toList <:+: s.toList

def replaceAll (s old new : String) : String := String.ofList (Replace.replaceAll old.toList new.toList s.toList)

def replaceFirst (s old new : String) : String := String.ofList (Replace.replaceFirst old.toList new.toList s.toList)

/-- The query with the duration that stands for the interval. -/
def withInterval (influxQL : String) : String := replaceAll influxQL interval "8675309ns"

def itsDashboardTime (influxQL : String) : Bool := contains (withInterval influxQL) dashboardTime

def intervalTime (influxQL : String) : Bool := contains influxQL interval

/-- The query that is parsed. -/
def prepared (influxQL : String) : String := replaceFirst (withInterval influxQL) dashboardTime "now() - 15m"

/-- The query of a config that is a text. -/
def restored (influxQL : String) : String :=
  let s := prepared influxQL
  let s := if itsDashboardTime influxQL then replaceFirst s "now() - 15m" dashboardTime else s
  if intervalTime influxQL then replaceAll s "8675309ns" interval else s

def convert (parse : String → Option (List Statement)) (reduce : Expr → Expr) (influxQL : String) :
    Except Failure QueryConfig := do
  let raw : QueryConfig := { emptyConfig with rawText := some (restored influxQL) }
  match parse (prepared influxQL) with
  | none => .error .parse
  | some [.select stmt target] =>
    match selection (intervalTime influxQL) stmt target with
    | none => return raw
    | some qc => return (← withCondition reduce (itsDashboardTime influxQL) qc stmt.condition).getD raw
  | some _ => return raw

end Influx
end Chronograf
