/-
# Rendering templates into a query

`tempVars/utils/replace.ts`. The templates are rendered one after the other,
each before those it depends on; a value is put in for the name wherever the
name occurs in the text so far, and without quotes within a regular expression.
A call may throw, and the search for regular expressions may never end.

Key definitions: `Js`, `renderTemplate`, `templateReplace`.
-/
import Chronograf.Lib.Replace
import Chronograf.TempVars.Templates

namespace Chronograf
namespace Templates

/-- What a call does: it returns, it throws an error, or, as `none`, it never ends. -/
abbrev Js (α : Type) : Type := ExceptT String Option α

def liftJs {α : Type} (x : Except String α) : Js α := some x

/-! ### Texts -/

def includes (s t : List Char) : Bool := t <:+: s

/-- `query.split(search).join(replacement)`. -/
def replaceAll (query search replacement : List Char) : List Char :=
  if search = [] then (query.map ([·])).intersperse replacement |>.flatten
  else Replace.replaceAll search replacement query

def dollar : Char := '$'

def ampersand : Char := '&'

def backquote : Char := Char.ofNat 96

def apostrophe : Char := Char.ofNat 39

/-- `GetSubstitution` without captures: what a replacement means for a match. -/
def getSubstitution (matched before after : List Char) : List Char → List Char
  | [] => []
  | [c] => [c]
  | c :: d :: s =>
    if c = dollar ∧ d = dollar then dollar :: getSubstitution matched before after s
    else if c = dollar ∧ d = ampersand then matched ++ getSubstitution matched before after s
    else if c = dollar ∧ d = backquote then before ++ getSubstitution matched before after s
    else if c = dollar ∧ d = apostrophe then after ++ getSubstitution matched before after s
    else c :: getSubstitution matched before after (d :: s)

/-- `text.replace(search, replacement)`, from `before` on: the first occurrence is replaced. -/
def replaceFrom (search replacement : List Char) : List Char → List Char → List Char
  | before, [] =>
    if search = [] then before ++ getSubstitution [] before [] replacement else before
  | before, c :: s =>
    if search.isPrefixOf (c :: s) then
      let after := (c :: s).drop search.length
      before ++ getSubstitution search before after replacement ++ after
    else replaceFrom search replacement (before ++ [c]) s

def replace (text search replacement : List Char) : List Char := replaceFrom search replacement [] text

/-! ### Regular expressions -/

/-- The next slash from an index on. -/
def findNext (s : List Char) (startIndex : ℕ) : Except String ℕ :=
  let tail := s.drop startIndex
  if '/' ∈ tail then .ok (startIndex + tail.idxOf '/')
  else .error ("Expected token '/' in '" ++ String.ofList tail ++ "'")

local instance lawfulBEqOperator : LawfulBEq (List Char) := inferInstance

def isStartOfRegex (s : List Char) (i : ℕ) : Bool := (s.drop i).take 2 ∈ [['=', '~'], ['!', '~']]

/-- From the regular expression that starts at `i`: the text with the first
occurrence in it replaced, and where to go on. -/
def replaceRegexAt (search replacement result : List Char) (i : ℕ) : Except String (List Char × ℕ) := do
  let regexStart ← findNext result i
  let regexEnd ← findNext result (regexStart + 1)
  let regexContent := (result.take regexEnd).drop (regexStart + 1)
  let replaced := result.take (regexStart + 1) ++ replace regexContent search replacement ++ result.drop regexEnd
  return (replaced, ← findNext replaced (regexStart + 1))

def replaceAllRegexFrom (search replacement result : List Char) (i : ℕ) : Js (List Char) :=
  if i + 1 < result.length then
    if isStartOfRegex result i then do
      let (replaced, next) ← liftJs (replaceRegexAt search replacement result i)
      by apply replaceAllRegexFrom; exacts [search, replacement, replaced, next]
    else by apply replaceAllRegexFrom; exacts [search, replacement, result, i + 1]
  else pure result
partial_fixpoint

def replaceAllRegex (query search replacement : List Char) : Js (List Char) :=
  replaceAllRegexFrom search replacement query 0

/-! ### Templates -/

/-- The value that a template is rendered by. -/
def selectedTemplateValue (t : Template) : Option TemplateValue :=
  (t.values.find? (·.localSelected)).or (t.values.find? (·.selected))

def quoted (q : Char) (value : List Char) : List Char := [q] ++ value ++ [q]

def renderValue (query tempVar value : List Char) : TemplateValueType → Js (List Char)
  | .tagKey | .fieldKey | .measurement | .database => do
    let q ← replaceAllRegex query tempVar value
    return replaceAll q tempVar (quoted '"' value)
  | .tagValue | .timeStamp => do
    let q ← replaceAllRegex query tempVar value
    return replaceAll q tempVar (quoted apostrophe value)
  | .csv | .constant | .metaQuery | .map => return replaceAll query tempVar value
  | .points => return query

def renderTemplate (query : List Char) (t : Template) : Js (List Char) :=
  if t.values.isEmpty then pure query
  else if query ≠ [] ∧ !includes query t.tempVar.toList then pure query
  else
    match selectedTemplateValue t with
    | none => pure query
    | some v => renderValue query t.tempVar.toList v.value.toList v.type

def sortTemplates (ts : List Template) : Except String (List Template) := do
  let _ ← graphFromTemplates ts
  return topologicalSort ts

def templateReplace (query : List Char) (ts : List Template) : Js (List Char) := do
  let sortedTemplates ← liftJs (sortTemplates ts)
  sortedTemplates.foldlM renderTemplate query

/-- An absent name is put in as `undefined`. -/
def nameText (name : Option String) : List Char := quoted '"' (name.getD "undefined").toList

/-- Of a custom meta query the names `:database:` and so on may be templates. -/
def templateInternalReplace (t : Template) (q : TemplateQuery) : List Char :=
  if t.type = .metaQuery then q.influxql.toList
  else
    replace (replace (replace q.influxql.toList ":database:".toList (nameText q.db)) ":measurement:".toList
      (nameText q.measurement)) ":tagKey:".toList (nameText q.tagKey)

end Templates
end Chronograf
