/-
# The JSON of a SELECT statement

`influx/queries/select.go`. Some of the encoders hand a Go value to
`encoding/json`, some paste strings into a text that `encoding/json` then
reads. Where the operand of a binary expression or the expression between
parentheses cannot be encoded, the process is stopped (`log.Fatalln`);
everywhere else this is an error of the call.

Key definitions: `marshalExpr`, `marshalSelectStatement`.
-/
import Chronograf.Influx.Influxql
import Chronograf.Lib.Json

namespace Chronograf
namespace Queries

open Influxql

/-- How an encoder ends without a value. -/
inductive Failure
  | error
  | fatal
  deriving DecidableEq

/-- `log.Fatalln` on any error. -/
def orFatal {α : Type} : Except Failure α → Except Failure α
  | .ok a => .ok a
  | .error _ => .error .fatal

/-- What `encoding/json` makes of a text that an encoder returns. -/
def pasted (text : List Char) : Except Failure Json :=
  match Json.read text with
  | some j => .ok j
  | none => .error .error

def literalJSON (lit litType : String) : Json :=
  .obj [("expr", .str "literal"), ("val", .str lit), ("type", .str litType)]

def distinctText (val : String) : List Char :=
  "\x7b\"expr\": \"distinct\", \"val\": \"".toList ++ val.toList ++ "\"\x7d".toList

def varRefText (val : String) (type : DataType) : List Char :=
  if type ≠ .unknown then
    "\x7b\"expr\": \"reference\", \"val\": \"".toList ++ val.toList ++ "\", \"type\": \"".toList ++ type.text.toList ++
      "\"\x7d".toList
  else "\x7b\"expr\": \"reference\",  \"val\": \"".toList ++ val.toList ++ "\"\x7d".toList

def wildcardPasted (type : WildcardType) : List Char :=
  "\x7b\"expr\": \"wildcard\", \"val\": \"".toList ++ (wildcardText type).toList ++ "\"\x7d".toList

/-- A member that is left out when it has no value. -/
def optional (key : String) (value : Option Json) : List (String × Json) :=
  match value with
  | some j => [(key, j)]
  | none => []

/-- A string, of which the empty one counts as no value. -/
def nonempty (s : String) : Option Json := if s = "" then none else some (.str s)

/-- A list, of which the empty one counts as no value. -/
def nonemptyList (js : List Json) : Option Json := if js.isEmpty then none else some (.arr js)

mutual

/-- `MarshalJSON` of an expression. -/
def marshalExpr : Expr → Except Failure Json
  | .binary op lhs rhs => do
    let l ← orFatal (marshalExpr lhs)
    let r ← orFatal (marshalExpr rhs)
    return .obj [("expr", .str "binary"), ("op", .str op.string), ("lhs", l), ("rhs", r)]
  | .boolean b => .ok (literalJSON (booleanText b) "boolean")
  | .call name args => do
    let as ← marshalArgs args
    return .obj ([("expr", .str "call"), ("name", .str name)] ++ optional "args" (nonemptyList as))
  | .distinct v => pasted (distinctText v)
  | .duration d => .ok (literalJSON (formatDuration d) "duration")
  | .integer i => .ok (literalJSON (Int.repr i) "integer")
  | .number x => .ok (literalJSON (numberText x) "number")
  | .paren e => do
    let j ← orFatal (marshalExpr e)
    return .obj [("expr", .str "paren"), ("val", j)]
  | .regex r => .ok (literalJSON (regexText r) "regex")
  | .string s => .ok (literalJSON s "string")
  | .varRef v type => pasted (varRefText v type)
  | .wildcard type => pasted (wildcardPasted type)

def marshalArgs : List Expr → Except Failure (List Json)
  | [] => .ok []
  | e :: es => do
    let j ← marshalExpr e
    let js ← marshalArgs es
    return j :: js

end

/-! ### The parts of a statement -/

def marshalField (f : Field) : Except Failure Json := do
  let column ← marshalExpr f.expr
  return .obj (optional "alias" (nonempty f.aliasName) ++ [("column", column)])

def marshalFields : List Field → Except Failure (List Json)
  | [] => .ok []
  | f :: fs => do
    let j ← marshalField f
    let js ← marshalFields fs
    return j :: js

/-- A regular expression has no exported fields: nothing of it is encoded. -/
def marshalSource (m : Measurement) : Json :=
  .obj ([("database", .str m.database), ("retentionPolicy", .str m.retentionPolicy)] ++
    optional "name" (nonempty m.name) ++ optional "regex" (m.regex.map fun _ => .obj []) ++
    [("type", .str "measurement")])

def marshalOffset : List Expr → Except Failure String
  | [] => .ok ""
  | .duration o :: _ => .ok (formatDuration o)
  | .call name args :: _ => if name ≠ "now" then .error .error else if args.length ≠ 0 then .error .error else .ok "now()"
  | _ :: _ => .error .error

def marshalDimension : Expr → Except Failure Json
  | .call name args =>
    if name ≠ "time" then .error .error
    else if args.length < 1 ∨ 2 < args.length then .error .error
    else
      match args with
      | .duration lit :: rest => do
        let offset ← marshalOffset rest
        return .obj (("interval", .str (formatDuration lit)) :: optional "offset" (nonempty offset))
      | _ => .error .error
  | .varRef v _ => .ok (.str v)
  | .wildcard type => .ok (.str (wildcardText type))
  | .regex r => .ok (.str (regexText r))
  | e => marshalExpr e

/-- Whether the dimension is a function call, that is, the time. -/
def isCall : Expr → Bool
  | .call _ _ => true
  | _ => false

/-- The time and the tags, after those that have been encoded already. -/
def marshalDimensions : List Expr → Option Json → List Json → Except Failure (Option Json × List Json)
  | [], time, tags => .ok (time, tags)
  | e :: es, time, tags => do
    let j ← marshalDimension e
    if isCall e then marshalDimensions es (some j) tags else marshalDimensions es time (tags ++ [j])

def fillText : Fill → String
  | .null => "null"
  | .none => "none"
  | .previous => "previous"
  | .linear => "linear"
  | .number v => v.text

def marshalFill (fill : Fill) : Option Json := if fill = .null then none else some (.str (fillText fill))

def groupByJSON (time : Option Json) (tags : List Json) (fill : Option Json) : Json :=
  .obj (optional "time" time ++ optional "tags" (nonemptyList tags) ++ optional "fill" fill)

def marshalGroupBy (dimensions : List Expr) (fill : Fill) : Except Failure Json := do
  let (time, tags) ← marshalDimensions dimensions none []
  return groupByJSON time tags (marshalFill fill)

def marshalSortField (f : SortField) : Json :=
  .obj (optional "name" (nonempty f.name) ++ [("order", .str (if f.ascending then "ascending" else "descending"))])

/-- A number, of which 0 counts as no value. -/
def nonzero (n : ℕ) : Option Json := if n = 0 then none else some (.num (Nat.repr n))

def marshalLimits (s : SelectStatement) : Option Json :=
  if s.limit ≠ 0 ∨ s.offset ≠ 0 ∨ s.slimit ≠ 0 ∨ s.soffset ≠ 0 then
    some (.obj (optional "limit" (nonzero s.limit) ++ optional "offset" (nonzero s.offset) ++
      optional "slimit" (nonzero s.slimit) ++ optional "soffset" (nonzero s.soffset)))
  else none

/-- The condition, if there is one. -/
def marshalCondition : Option Expr → Except Failure (Option Json)
  | none => .ok none
  | some e => do
    let j ← marshalExpr e
    return some j

/-- The dimensions and the fill, if there are dimensions. -/
def marshalGrouping (s : SelectStatement) : Except Failure (Option Json) :=
  if s.dimensions.isEmpty then .ok none
  else do
    let j ← marshalGroupBy s.dimensions s.fill
    return some j

/-- `encoding/json` encodes the members of a map in the order of their keys. -/
def statementJSON (condition : Option Json) (fields : List Json) (groupBy limits : Option Json)
    (orderbys sources : List Json) : Json :=
  .obj (optional "condition" condition ++ [("fields", .arr fields)] ++ optional "groupBy" groupBy ++
    optional "limits" limits ++ optional "orderbys" (nonemptyList orderbys) ++ [("sources", .arr sources)])

def marshalSelectStatement (s : SelectStatement) : Except Failure Json := do
  let condition ← marshalCondition s.condition
  let fields ← marshalFields s.fields
  let groupBy ← marshalGrouping s
  return statementJSON condition fields groupBy (marshalLimits s) (s.sortFields.map marshalSortField)
    (s.sources.map marshalSource)

end Queries
end Chronograf
