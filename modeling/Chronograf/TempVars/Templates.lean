/-
# Templates and their graph

`tempVars/utils/graph.ts` and `resolveValues` of `tempVars/utils/index.ts`. A
template depends on the templates that its query names, or, without a query, its
values. Templates have different IDs, so a node of the graph is its template.

Key definitions: `Template`, `getDependencyNames`, `graphFromTemplates`,
`topologicalSort`, `resolveValues`.
-/
import Chronograf.Lib.DepthFirst
import Mathlib.Data.List.Sort

namespace Chronograf
namespace Templates

inductive TemplateValueType
  | database | tagKey | fieldKey | measurement | tagValue | csv | map | points | constant | metaQuery | timeStamp
  deriving DecidableEq

inductive TemplateType
  | autoGroupBy | constant | fieldKeys | measurements | tagKeys | tagValues | csv | map | databases | metaQuery | text
  deriving DecidableEq

structure TemplateValue where
  value : String
  type : TemplateValueType
  selected : Bool
  localSelected : Bool
  key : Option String
  deriving DecidableEq

/-- Without `influxql` there is no query. -/
structure TemplateQuery where
  db : Option String
  measurement : Option String
  tagKey : Option String
  influxql : String
  deriving DecidableEq

structure Template where
  id : String
  tempVar : String
  values : List TemplateValue
  type : TemplateType
  query : Option TemplateQuery
  deriving DecidableEq

/-- `template.query && template.query.influxql`. -/
def Template.influxql (t : Template) : Option String :=
  match t.query with
  | some q => if q.influxql = "" then none else some q.influxql
  | none => none

/-! ### The graph -/

/-- The names in a text, from outside or inside of a name; `none` if the last
one does not end. -/
def dependencyNames : Bool → List Char → List Char → Option (List String)
  | false, _, [] => some []
  | true, _, [] => none
  | false, _, c :: s => if c = ':' then dependencyNames true [':'] s else dependencyNames false [] s
  | true, name, c :: s =>
    if c = ':' then (dependencyNames false [] s).map (String.ofList (name ++ [':']) :: ·)
    else dependencyNames true (name ++ [c]) s

def getDependencyNamesHelper (s : String) : Except String (List String) :=
  match dependencyNames false [] s.toList with
  | some names => .ok names
  | none => .error ("malformed template variable string `" ++ s ++ "`")

/-- As a set: names may be there twice. -/
def getDependencyNames (t : Template) : Except String (List String) :=
  match t.influxql with
  | some influxql => getDependencyNamesHelper influxql
  | none => (t.values.mapM fun v => getDependencyNamesHelper v.value).map List.flatten

/-- The names where they can be read. -/
def Template.names (t : Template) : List String :=
  match getDependencyNames t with
  | .ok names => names
  | .error _ => []

/-- An ID that is an array index. -/
def arrayIndex (id : String) : Option ℕ :=
  let n := Nat.ofDigitChars 10 id.toList 0
  if Nat.repr n = id ∧ n < 4294967295 then some n else none

/-- `Object.values` of the templates by ID: array indices come first, in order. -/
def nodes (ts : List Template) : List Template :=
  (ts.filter fun t => (arrayIndex t.id).isSome).insertionSort (fun t u => (arrayIndex t.id).getD 0 ≤ (arrayIndex u.id).getD 0) ++
    ts.filter fun t => !(arrayIndex t.id).isSome

def children (ts : List Template) (t : Template) : List Template := (nodes ts).filter fun n => n.tempVar ∈ t.names

def parents (ts : List Template) (t : Template) : List Template := ts.filter fun p => t ∈ children ts p

/-- A node that is met again on its way down. -/
def cyclic (ts : List Template) (t : Template) : Option Template :=
  DepthFirst.onCycle (children ts) ((nodes ts).length + 1) t []

def verifyAcyclic (ts : List Template) : Except String Unit :=
  match (nodes ts).findSome? (cyclic ts) with
  | some t => .error ("cyclic dependency in template \"" ++ t.tempVar ++ "\"")
  | none => .ok ()

def graphFromTemplates (ts : List Template) : Except String (List Template) := do
  ts.forM fun t => do
    let _ ← getDependencyNames t
    return ()
  verifyAcyclic ts
  return nodes ts

/-- Every template before those it depends on. -/
def topologicalSort (ts : List Template) : List Template := (DepthFirst.postorder (children ts) (nodes ts)).reverse

def findLeaves (ts : List Template) : List Template := (nodes ts).filter fun t => (children ts t).isEmpty

/-! ### Values -/

/-- `TEMPLATE_VARIABLE_TYPES`. -/
def templateVariableTypes : TemplateType → Option TemplateValueType
  | .csv => some .csv
  | .map => some .map
  | .databases => some .database
  | .measurements => some .measurement
  | .fieldKeys => some .fieldKey
  | .tagKeys => some .tagKey
  | .tagValues => some .tagValue
  | .metaQuery => some .metaQuery
  | .text => some .constant
  | .autoGroupBy | .constant => none

/-- A text, of which the empty one counts as none. -/
def truthy (s : Option String) : Option String := s.filter (· ≠ "")

def getSelectedValue (t : Template) : Option String := (t.values.find? (·.selected)).map (·.value)

def getLocalSelectedValue (t : Template) : Option String := (t.values.find? (·.localSelected)).map (·.value)

/-- The value if it is one of those, else the other one. -/
def oneOf (values : List String) (value : Option String) (other : String) : String :=
  match truthy value with
  | some v => if v ∈ values then v else other
  | none => other

def newTemplateValueQuery (t : Template) (type : TemplateValueType) (newValues : List String)
    (hopefullySelectedValue : Option String) : List TemplateValue :=
  match newValues with
  | [] => []
  | first :: _ =>
    let selectedValue := oneOf newValues (getSelectedValue t) first
    let localSelectedValue := oneOf newValues ((truthy hopefullySelectedValue).or (getLocalSelectedValue t)) selectedValue
    newValues.map fun value =>
      ⟨value, type, value = selectedValue, value = localSelectedValue, none⟩

def newTemplateValueConstant (t : Template) (hopefullySelectedValue : Option String) : List TemplateValue :=
  match t.values with
  | [] => []
  | first :: _ =>
    let selectedValue := (t.values.find? (·.selected)).getD first
    let hoped := t.values.find? fun v => if t.type = .map then v.key = hopefullySelectedValue else some v.value = hopefullySelectedValue
    let localSelectedValue := (hoped.or (t.values.find? (·.localSelected))).getD selectedValue
    t.values.map fun v =>
      { v with selected := v.value = selectedValue.value, localSelected := v.value = localSelectedValue.value }

def newTemplateValueText (t : Template) (hopefullySelectedValue : Option String) : List TemplateValue :=
  match truthy hopefullySelectedValue, t.values with
  | some v, _ => [⟨v, .constant, false, true, none⟩]
  | none, v :: _ => [{ v with localSelected := true }]
  | none, [] => [⟨"", .constant, false, true, none⟩]

/-- Without values from a query, reading their number is a `TypeError`. -/
def resolveValues (t : Template) (newValues : Option (List String)) (hopefullySelectedValue : Option String) :
    Except String (List TemplateValue) :=
  match t.type with
  | .text => .ok (newTemplateValueText t hopefullySelectedValue)
  | .csv | .map => .ok (newTemplateValueConstant t hopefullySelectedValue)
  | .autoGroupBy => .error "TemplateValue resolution for TemplateType autoGroupBy not implemented"
  | .constant => .error "TemplateValue resolution for TemplateType constant not implemented"
  | type =>
    match newValues, templateVariableTypes type with
    | some values, some valueType => .ok (newTemplateValueQuery t valueType values hopefullySelectedValue)
    | _, _ => .error "TypeError"

end Templates
end Chronograf
