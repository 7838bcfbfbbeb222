/-
# Hydrating the templates of a dashboard

`hydrateTemplates` of `tempVars/utils/graph.ts`. A template is started when the
templates it depends on are done: with those that are done by then, all of
them, its query is rendered and fetched. The outstanding calls end in any order;
each lets its parents start that have waited for it. The fetcher is a parameter
that answers every query.

Key definitions: `hydrateTemplate`, `State`, `State.start`, `State.complete`,
`State.result`.
-/
import Chronograf.Lib.Events
import Chronograf.TempVars.Replace
import Mathlib.Logic.Function.Basic

namespace Chronograf
namespace Templates

/-- The query that is fetched for a template, if it has one. -/
def renderedQuery (t : Template) (templates : List Template) : Js (Option String) :=
  match t.query, t.influxql with
  | some q, some _ => do
    let rendered ← templateReplace (templateInternalReplace t q) templates
    return some (String.ofList rendered)
  | _, _ => pure none

section Answers

variable (fetch : String → List String) (selections : String → Option String)

/-- The template with the values for the query that has been fetched. -/
def withValues (t : Template) (query : Option String) : Except String Template := do
  let templateValues ← resolveValues t (query.map fetch) (selections t.tempVar)
  return { t with values := templateValues }

def hydrateTemplate (t : Template) (templates : List Template) : Js Template := do
  let query ← renderedQuery t templates
  liftJs (withValues fetch selections t query)

/-- How far the hydration of a template is: with its query, it waits for the values. -/
inductive Status
  | notStarted
  | loading (query : Js (Option String))
  | done (hydrated : Template)
  | rejected

structure State where
  status : Template → Status
  started : List Template
  failed : Option String

namespace State

def hydrated (s : State) (t : Template) : Option Template :=
  match s.status t with
  | .done h => some h
  | _ => none

def isResolved (s : State) (t : Template) : Bool := (s.hydrated t).isSome

variable (ts : List Template)

def resolvedTemplates (s : State) : List Template := (nodes ts).filterMap s.hydrated

/-- `resolve` up to where it waits. -/
def start (s : State) (t : Template) : State :=
  { s with
    status := Function.update s.status t (.loading (renderedQuery t (s.resolvedTemplates ts)))
    started := s.started ++ [t] }

/-- The rest of `resolve` when the template is there. -/
def finish (s : State) (t hydrated : Template) : State :=
  let s := { s with status := Function.update s.status t (.done hydrated) }
  ((parents ts t).filter fun p => (children ts p).all s.isResolved).foldl (start ts) s

def reject (s : State) (t : Template) (e : String) : State :=
  { s with status := Function.update s.status t .rejected, failed := s.failed.or (some e) }

/-- An outstanding call ends. -/
def complete (s : State) (t : Template) : Option State :=
  match s.status t with
  | .loading (some (.error e)) => some (s.reject t e)
  | .loading (some (.ok query)) =>
    match withValues fetch selections t query with
    | .ok hydrated => some (s.finish ts t hydrated)
    | .error e => some (s.reject t e)
  | _ => none

def init : State := (findLeaves ts).foldl (start ts) ⟨fun _ => .notStarted, [], none⟩

/-- What `hydrateTemplates` returns once no call is outstanding. -/
def result (s : State) : Option (List Template) := (nodes ts).mapM s.hydrated

end State

end Answers

end Templates
end Chronograf
