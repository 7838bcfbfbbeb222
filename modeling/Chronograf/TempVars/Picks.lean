/-
# Picking values of templates

`templateVariableLocalSelected` and `rehydrateTemplatesAsync` of
`dashboards/actions/index.ts`, with their reducers. A pick selects a value and
starts a hydration of the templates as they are then; when a hydration ends, its
templates replace those of the store. The last pick is what is selected as long
as a hydration ends with the picks that it was started with.

Key definitions: `hydrateTemplates`, `Page`, `Page.step`, `Page.Timely`,
`Page.ShowsLastPicks`.
Key theorems: `selection_kept`, `Page.last_pick_selected`.
-/
import Chronograf.TempVars.Rendering

namespace Chronograf
namespace Templates

/-- What hydrating the templates yields when their calls end in the order of
`completions`. -/
def hydrateTemplates (fetch : String → List String) (completions ts : List Template) : Option (List Template) :=
  match graphFromTemplates ts with
  | .error _ => none
  | .ok _ => (Events.run (State.complete fetch (fun _ => none) ts) (State.init ts) completions).bind (State.result ts)

structure Dashboard where
  id : ℕ
  templates : List Template

/-! ### Reducers -/

/-- A template with the value selected. -/
def Template.localSelect (t : Template) (newValue : TemplateValue) : Template :=
  if t.type = .text then { t with values := [newValue] }
  else { t with values := t.values.map fun v => { v with localSelected := v.value = newValue.value } }

def templateVariableLocalSelected (dashboards : List Dashboard) (dashboardID : ℕ) (templateID : String)
    (newValue : TemplateValue) : List Dashboard :=
  dashboards.map fun d =>
    if d.id = dashboardID then
      { d with templates := d.templates.map fun t => if t.id = templateID then t.localSelect newValue else t }
    else d

/-- Templates are replaced by their IDs, on every dashboard. -/
def updateTemplates (dashboards : List Dashboard) (updatedTemplates : List Template) : List Dashboard :=
  dashboards.map fun d =>
    { d with templates := d.templates.map fun t => (updatedTemplates.find? (·.id = t.id)).getD t }

/-! ### The page of a dashboard -/

/-- The store, the templates that each outstanding hydration was started with,
and the value picked last for each template. -/
structure Page where
  dashboards : List Dashboard
  outstanding : List (List Template)
  picked : String → Option String

namespace Page

inductive Event
  | pick (templateID : String) (value : TemplateValue)
  | ended (i : ℕ) (fetch : String → List String) (completions : List Template)

def init (dashboards : List Dashboard) : Page := ⟨dashboards, [], fun _ => none⟩

/-- A hydration ends with what its calls have fetched. -/
def finish (s : Page) (i : ℕ) (templates : List Template) : Page :=
  { s with dashboards := updateTemplates s.dashboards templates, outstanding := s.outstanding.eraseIdx i }

/-- `handlePickTemplate` up to where it waits, or the rest of a call when its
templates are hydrated. -/
def step (dashboardID : ℕ) (s : Page) : Event → Option Page
  | .pick templateID value => do
    let dashboards := templateVariableLocalSelected s.dashboards dashboardID templateID value
    let dashboard ← dashboards.find? (·.id = dashboardID)
    return ⟨dashboards, s.outstanding ++ [dashboard.templates], Function.update s.picked templateID (some value.value)⟩
  | .ended i fetch completions => do
    let captured ← s.outstanding[i]?
    let templates ← hydrateTemplates fetch completions captured
    return s.finish i templates

/-- Each template that is not a text has the value selected that was picked last,
if it has that value at all. -/
def ShowsLastPicks (dashboardID : ℕ) (s : Page) : Prop :=
  ∀ d ∈ s.dashboards, d.id = dashboardID → ∀ t ∈ d.templates, t.type ≠ .text → ∀ v, s.picked t.id = some v →
    v ∈ t.values.map (·.value) → getLocalSelectedValue t = some v

/-- A template had the value selected that is picked, and `resolveValues` does not
take it for none. -/
structure HadSelected (t : Template) (v : String) : Prop where
  selected : getLocalSelectedValue t = some v
  nonempty : t.type ≠ .csv → t.type ≠ .map → v ≠ ""
  keys : t.type = .map → ∀ x ∈ t.values, x.key ≠ none

/-- A hydration that ends was started with the last pick of every template whose
picked value it returns. -/
def Timely (s : Page) : Event → Prop
  | .pick _ _ => True
  | .ended i fetch completions => ∀ captured ∈ s.outstanding[i]?, (captured.map (·.id)).Nodup ∧
      ∀ templates ∈ hydrateTemplates fetch completions captured, ∀ t ∈ templates, ∀ v, s.picked t.id = some v →
        v ∈ t.values.map (·.value) → ∀ c ∈ captured, c.id = t.id → c.type ≠ .text → HadSelected c v

end Page

/-! ### Hydrated templates -/

section Hydrated

variable {fetch : String → List String} {selections : String → Option String} {ts : List Template}

/-- A template that is done has values that were resolved for a query. -/
def State.Resolved (fetch : String → List String) (selections : String → Option String) (s : State) : Prop :=
  ∀ t h, s.status t = .done h → ∃ q, withValues fetch selections t q = .ok h

theorem State.Resolved.start {s : State} (h : s.Resolved fetch selections) : ∀ ps : List Template,
    (ps.foldl (State.start ts) s).Resolved fetch selections
  | [] => h
  | p :: ps => by
    refine State.Resolved.start (s := s.start ts p) (fun t x hx => ?_) ps
    by_cases ht : t = p
    · subst ht
      simp [State.start] at hx
    · exact h t x ((Function.update_of_ne ht _ _).symm.trans hx)

theorem State.Resolved.complete {s s' : State} (h : s.Resolved fetch selections) {t : Template}
    (hstep : State.complete fetch selections ts s t = some s') : s'.Resolved fetch selections := by
  have hupdate : ∀ {x : Status}, (∀ y, x = .done y → ∃ q, withValues fetch selections t q = .ok y) →
      ∀ u y, Function.update s.status t x u = .done y → ∃ q, withValues fetch selections u q = .ok y := by
    intro x hx u y hy
    by_cases hu : u = t
    · subst hu
      exact hx y (by rwa [Function.update_self] at hy)
    · exact h u y (by rwa [Function.update_of_ne hu] at hy)
  unfold State.complete at hstep
  split at hstep
  · obtain rfl := Option.some.inj hstep
    exact hupdate fun y hy => nomatch hy
  · split at hstep
    · next query _ _ hydrated hvalues =>
      obtain rfl := Option.some.inj hstep
      have hdone : State.Resolved fetch selections { s with status := Function.update s.status t (.done hydrated) } :=
        hupdate fun y hy => ⟨query, Status.done.inj hy ▸ hvalues⟩
      exact hdone.start _
    · obtain rfl := Option.some.inj hstep
      exact hupdate fun y hy => nomatch hy
  · cases hstep

/-- A hydrated template is one of those given, with values resolved for it. -/
theorem mem_hydrateTemplates {completions templates : List Template} (h : hydrateTemplates fetch completions ts = some templates)
    {t' : Template} (ht' : t' ∈ templates) : ∃ t ∈ ts, ∃ newValues values,
      resolveValues t newValues none = .ok values ∧ t' = { t with values := values } := by
  unfold hydrateTemplates at h
  split at h
  · cases h
  · obtain ⟨s, hrun, hresult⟩ := Option.bind_eq_some_iff.mp h
    have hinit : (State.init ts).Resolved fetch fun _ => none :=
      State.Resolved.start (fun t x hx => Status.noConfusion hx) _
    have hs := Events.run_keeps (I := State.Resolved fetch fun _ => none) (P := fun _ => True)
      (fun s e s' hs _ hstep => hs.complete hstep) completions (fun _ _ => trivial) hinit hrun
    obtain ⟨t, ht, hdone⟩ := Option.mem_of_mapM hresult ht'
    have hstatus : s.status t = .done t' := by
      unfold State.hydrated at hdone
      cases hstatus : s.status t with
      | done x =>
        rw [hstatus] at hdone
        rw [Option.some.inj hdone]
      | notStarted => rw [hstatus] at hdone; cases hdone
      | loading q => rw [hstatus] at hdone; cases hdone
      | rejected => rw [hstatus] at hdone; cases hdone
    obtain ⟨q, hq⟩ := hs t t' hstatus
    obtain ⟨values, hvalues, heq⟩ := withValues_ok hq
    exact ⟨t, mem_nodes.mp ht, q.map fetch, values, hvalues, heq⟩

end Hydrated

/-! ### Selections -/

/-- Where only the value `v` is selected, it is found. -/
theorem find_selected {values : List TemplateValue} {v : String} (hv : v ∈ values.map (·.value))
    (h : ∀ x ∈ values, x.localSelected = decide (x.value = v)) : (values.find? (·.localSelected)).map (·.value) = some v := by
  obtain ⟨x, hx, rfl⟩ := List.mem_map.mp hv
  cases hfound : values.find? (·.localSelected) with
  | none =>
    have hnot := List.find?_eq_none.mp hfound x hx
    rw [h x hx] at hnot
    simp at hnot
  | some y =>
    have hy := List.find?_some hfound
    rw [h y (List.mem_of_find?_eq_some hfound)] at hy
    rw [Option.map_some, of_decide_eq_true hy]

@[simp] theorem localSelect_id (t : Template) (newValue : TemplateValue) : (t.localSelect newValue).id = t.id := by
  unfold Template.localSelect
  split_ifs <;> rfl

@[simp] theorem localSelect_type (t : Template) (newValue : TemplateValue) : (t.localSelect newValue).type = t.type := by
  unfold Template.localSelect
  split_ifs <;> rfl

theorem selected_localSelect {t : Template} (htext : t.type ≠ .text) {newValue : TemplateValue}
    (hv : newValue.value ∈ (t.localSelect newValue).values.map (·.value)) :
    getLocalSelectedValue (t.localSelect newValue) = some newValue.value := by
  rw [Template.localSelect, if_neg htext] at hv ⊢
  refine find_selected hv fun x hx => ?_
  obtain ⟨y, -, rfl⟩ := List.mem_map.mp hx
  rfl

/-- What was selected is selected in the new values if it is among them. -/
theorem selection_kept {t : Template} (htext : t.type ≠ .text) {newValues : Option (List String)} {values : List TemplateValue}
    (h : resolveValues t newValues none = .ok values) {v : String} (hhad : Page.HadSelected t v)
    (hv : v ∈ values.map (·.value)) : getLocalSelectedValue { t with values := values } = some v := by
  obtain ⟨hselected, hnonempty, hkeys⟩ := hhad
  refine find_selected hv ?_
  have hconstant : (t.type = .map → ∀ x ∈ t.values, x.key ≠ none) → values = newTemplateValueConstant t none →
      ∀ x ∈ values, x.localSelected = decide (x.value = v) := by
    rintro hkeys rfl
    unfold newTemplateValueConstant
    cases hvalues : t.values with
    | nil => exact fun x hx => absurd hx List.not_mem_nil
    | cons first rest =>
      obtain ⟨y, hy, rfl⟩ := Option.map_eq_some_iff.mp hselected
      rw [hvalues] at hy hkeys
      have hhoped : ((first :: rest).find? fun x => if t.type = .map then x.key = none else some x.value = none) = none := by
        refine List.find?_eq_none.mpr fun x hx => ?_
        by_cases hmap : t.type = .map
        · simp [hmap, hkeys hmap x hx]
        · simp [hmap]
      simp only [hhoped, hy, Option.none_or, Option.getD_some]
      intro x hx
      obtain ⟨z, -, rfl⟩ := List.mem_map.mp hx
      rfl
  have hquery : t.type ≠ .csv → t.type ≠ .map → ∀ type new, values = newTemplateValueQuery t type new none →
      ∀ x ∈ values, x.localSelected = decide (x.value = v) := by
    rintro hcsv hmap type new rfl
    unfold newTemplateValueQuery at hv ⊢
    cases new with
    | nil => exact fun x hx => absurd hx List.not_mem_nil
    | cons first rest =>
      have hmem : v ∈ first :: rest := by
        obtain ⟨x, hx, rfl⟩ := List.mem_map.mp hv
        obtain ⟨z, hz, rfl⟩ := List.mem_map.mp hx
        exact hz
      have htruthy : truthy (some v) = some v := by simp [truthy, hnonempty hcsv hmap]
      have honeOf : ∀ other, oneOf (first :: rest) (some v) other = v := by
        intro other
        rw [oneOf, htruthy]
        exact if_pos hmem
      intro x hx
      obtain ⟨z, -, rfl⟩ := List.mem_map.mp hx
      have hnone : (truthy none).or (getLocalSelectedValue t) = some v := hselected
      simp only [hnone, honeOf]
  unfold resolveValues at h
  split at h
  · next htype => exact absurd htype htext
  · exact hconstant hkeys (Except.ok.inj h).symm
  · exact hconstant hkeys (Except.ok.inj h).symm
  · cases h
  · cases h
  · split at h
    · exact hquery (by assumption) (by assumption) _ _ (Except.ok.inj h).symm
    · cases h

namespace Page

/-! ### Runs -/

theorem shows_init (dashboardID : ℕ) (dashboards : List Dashboard) : (init dashboards).ShowsLastPicks dashboardID :=
  fun _ _ _ _ _ _ _ hpicked => nomatch hpicked

/-- A pick selects its value and leaves the other templates alone. -/
theorem shows_pick {dashboardID : ℕ} {s s' : Page} (h : s.ShowsLastPicks dashboardID) {templateID : String} {value : TemplateValue}
    (hstep : step dashboardID s (.pick templateID value) = some s') : s'.ShowsLastPicks dashboardID := by
  obtain ⟨dashboard, -, hs'⟩ := Option.bind_eq_some_iff.mp hstep
  obtain rfl := Option.some.inj hs'
  intro d hd hid t ht htext v hpicked hv
  replace hpicked : Function.update s.picked templateID (some value.value) t.id = some v := hpicked
  obtain ⟨before, hbefore, rfl⟩ := List.mem_map.mp hd
  by_cases hdashboard : before.id = dashboardID
  · rw [if_pos hdashboard] at ht
    obtain ⟨t, hmem, rfl⟩ := List.mem_map.mp ht
    by_cases hid' : t.id = templateID
    · rw [if_pos hid'] at htext hpicked hv ⊢
      rw [localSelect_type] at htext
      rw [localSelect_id, hid', Function.update_self] at hpicked
      obtain rfl := Option.some.inj hpicked
      exact selected_localSelect htext hv
    · rw [if_neg hid'] at htext hpicked hv ⊢
      rw [Function.update_of_ne hid'] at hpicked
      exact h before hbefore hdashboard t hmem htext v hpicked hv
  · rw [if_neg hdashboard] at hid
    exact absurd hid hdashboard

/-- A hydration that ends in time leaves every last pick selected. -/
theorem shows_ended {dashboardID : ℕ} {s s' : Page} (h : s.ShowsLastPicks dashboardID) {i : ℕ} {fetch : String → List String}
    {completions : List Template} (htimely : s.Timely (.ended i fetch completions))
    (hstep : step dashboardID s (.ended i fetch completions) = some s') : s'.ShowsLastPicks dashboardID := by
  obtain ⟨captured, hcaptured, hstep⟩ := Option.bind_eq_some_iff.mp hstep
  obtain ⟨templates, htemplates, hs'⟩ := Option.bind_eq_some_iff.mp hstep
  obtain rfl := Option.some.inj hs'
  intro d hd hid t ht htext v hpicked hv
  obtain ⟨before, hbefore, rfl⟩ := List.mem_map.mp hd
  obtain ⟨old, hold, rfl⟩ := List.mem_map.mp ht
  cases hfound : templates.find? (·.id = old.id) with
  | none =>
    rw [hfound] at htext hpicked hv
    exact h before hbefore hid old hold htext v hpicked hv
  | some new =>
    rw [hfound] at htext hpicked hv
    have hmem := List.mem_of_find?_eq_some hfound
    obtain ⟨c, hc, newValues, values, hvalues, rfl⟩ := mem_hydrateTemplates htemplates hmem
    have hhad : HadSelected c v :=
      (htimely captured hcaptured).2 templates htemplates _ hmem v hpicked hv c hc rfl htext
    exact selection_kept (t := c) htext hvalues hhad hv

/-- In every state of a run whose hydrations all end in time, and so once they
have all ended, the values picked last are selected. -/
theorem last_pick_selected {dashboardID : ℕ} {dashboards : List Dashboard} {events : List Event} {s : Page}
    (htimely : ∀ before e after s', events = before ++ e :: after →
      Events.run (step dashboardID) (init dashboards) before = some s' → s'.Timely e)
    (hrun : Events.run (step dashboardID) (init dashboards) events = some s) : s.ShowsLastPicks dashboardID := by
  refine Events.run_keeps_when ?_ events htimely (shows_init dashboardID dashboards) hrun
  intro s e s' hs hok hstep
  cases e with
  | pick templateID value => exact shows_pick hs hstep
  | ended i fetch completions => exact shows_ended hs hok hstep

/-! ### Two picks of one template -/

/-- A list of two values. -/
def hosts (selected : String) : Template :=
  ⟨"1", ":host:", ["a", "b"].map fun v => ⟨v, .csv, v = "a", v = selected, none⟩, .csv, none⟩

def pickHost (value : String) : Event := .pick "1" ⟨value, .csv, false, false, none⟩

def picks : Page := init [⟨1, [hosts "a"]⟩]

/-- The hydration of a pick ends before there is another one. -/
theorem pick_selected : ∃ s, Events.run (step 1) picks [pickHost "b", .ended 0 (fun _ => []) [hosts "b"]] = some s ∧
    s.ShowsLastPicks 1 := by
  have hrun : (Events.run (step 1) picks [pickHost "b", .ended 0 (fun _ => []) [hosts "b"]]).isSome := by decide +kernel
  obtain ⟨s, hs⟩ := Option.isSome_iff_exists.mp hrun
  refine ⟨s, hs, last_pick_selected (fun before e after s' hsplit hbefore => ?_) hs⟩
  rcases before with _ | ⟨e₁, _ | ⟨e₂, rest⟩⟩
  · obtain ⟨rfl, -⟩ := List.cons.inj hsplit
    trivial
  · obtain ⟨hfirst, hrest⟩ := List.cons.inj hsplit
    obtain ⟨hsecond, -⟩ := List.cons.inj hrest
    subst hfirst hsecond
    obtain rfl := Option.some.inj hbefore
    intro captured hcaptured
    obtain rfl : [hosts "b"] = captured := Option.some.inj hcaptured
    have hhydrated : hydrateTemplates (fun _ => []) [hosts "b"] [hosts "b"] = some [hosts "b"] := by decide +kernel
    refine ⟨by decide, fun templates htemplates t ht v hpicked _ c hc _ _ => ?_⟩
    obtain rfl := Option.some.inj (hhydrated.symm.trans htemplates)
    obtain rfl := List.mem_singleton.mp ht
    obtain rfl := List.mem_singleton.mp hc
    obtain rfl : "b" = v := Option.some.inj hpicked
    exact ⟨by rfl, fun hcsv => absurd rfl hcsv, fun hmap => nomatch hmap⟩
  · have hlength := congrArg List.length hsplit
    simp at hlength

/-- What a run leaves of the store, and what has been picked. -/
def seen (s : Page) : List (ℕ × List Template) × ℕ × Option String :=
  (s.dashboards.map fun d => (d.id, d.templates), s.outstanding.length, s.picked "1")

/-- The hydration of the first pick ends last, and brings that pick back. -/
theorem first_pick_comes_back : ∃ s, Events.run (step 1) picks [pickHost "b", pickHost "a",
    .ended 1 (fun _ => []) [hosts "a"], .ended 0 (fun _ => []) [hosts "b"]] = some s ∧ s.outstanding = [] ∧
      ¬ s.ShowsLastPicks 1 := by
  have hrun : (Events.run (step 1) picks [pickHost "b", pickHost "a", .ended 1 (fun _ => []) [hosts "a"],
      .ended 0 (fun _ => []) [hosts "b"]]).map seen = some ([(1, [hosts "b"])], 0, some "a") := by decide +kernel
  obtain ⟨s, hs, hseen⟩ := Option.map_eq_some_iff.mp hrun
  obtain ⟨hdashboards, hseen⟩ := Prod.mk.inj hseen
  obtain ⟨houtstanding, hpicked⟩ := Prod.mk.inj hseen
  refine ⟨s, hs, List.length_eq_zero_iff.mp houtstanding, fun hshows => ?_⟩
  obtain ⟨d, hd, hd'⟩ : ∃ d ∈ s.dashboards, (d.id, d.templates) = (1, [hosts "b"]) :=
    List.mem_map.mp (hdashboards ▸ List.mem_cons_self)
  obtain ⟨hid, htemplates⟩ := Prod.mk.inj hd'
  have hselected := hshows d hd hid (hosts "b") (htemplates ▸ List.mem_cons_self) (by decide) "a" hpicked (by decide)
  exact absurd hselected (by decide)

end Page

end Templates
end Chronograf
