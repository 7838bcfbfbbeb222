/-
# Hydration in any order

In every run of `hydrateTemplates`, whatever the order in which the calls end:
if rendering the templates that are done by then is always as good as rendering
the dependencies, no call fails, every template is hydrated once and after those
it depends on, and the result is the one that its dependencies alone determine.
Where the values of a template bring in the name of another one, the order shows
in the result.

Key definitions: `Separable`, `State.Sound`.
Key theorems: `run_sound`, `hydrated_in_any_order`, `order_shows`.
-/
import Chronograf.TempVars.Rendering

namespace Chronograf
namespace Templates

open DepthFirst Extensions Relation

/-- The texts that arise from the queries of the templates can be told apart. -/
def Separable (ts : List Template) (r : Template → Template) : Prop :=
  ∀ t ∈ nodes ts, ∀ q, t.query = some q → t.influxql ≠ none → Separate ts r t (templateInternalReplace t q)

variable {fetch : String → List String} {selections : String → Option String} {ts : List Template}
  {r : Template → Template}

/-! ### Starting templates -/

theorem start_hydrated (ts : List Template) {s : State} {t : Template} (h : s.hydrated t = none) :
    (s.start ts t).hydrated = s.hydrated := by
  funext x
  by_cases hx : x = t
  · subst hx
    rw [h]
    simp [State.hydrated, State.start]
  · simp [State.hydrated, State.start, hx]

/-- All of them are started with the templates that are done. -/
theorem foldl_start (ts : List Template) : ∀ {ps : List Template} {s : State}, (∀ p ∈ ps, s.hydrated p = none) →
    (ps.foldl (State.start ts) s).hydrated = s.hydrated ∧ (ps.foldl (State.start ts) s).started = s.started ++ ps ∧
      (ps.foldl (State.start ts) s).failed = s.failed ∧
      ∀ x, (ps.foldl (State.start ts) s).status x =
        if x ∈ ps then .loading (renderedQuery x (s.resolvedTemplates ts)) else s.status x
  | [], s, _ => ⟨rfl, (List.append_nil _).symm, rfl, fun x => (if_neg List.not_mem_nil).symm⟩
  | p :: ps, s, h => by
    have hp := start_hydrated ts (h p List.mem_cons_self)
    have hrest : ∀ x ∈ ps, (s.start ts p).hydrated x = none := fun x hx => by
      rw [hp]
      exact h x (List.mem_cons_of_mem _ hx)
    obtain ⟨hhydrated, hstarted, hfailed, hstatus⟩ := foldl_start ts hrest
    refine ⟨hhydrated.trans hp, ?_, hfailed, fun x => ?_⟩
    · rw [List.foldl_cons, hstarted]
      exact List.append_assoc _ _ _
    · have hresolved : (s.start ts p).resolvedTemplates ts = s.resolvedTemplates ts := by
        unfold State.resolvedTemplates
        rw [hp]
      rw [List.foldl_cons, hstatus, hresolved]
      by_cases hx : x ∈ ps
      · rw [if_pos hx, if_pos (List.mem_cons_of_mem _ hx)]
      · rw [if_neg hx]
        by_cases hxp : x = p
        · subst hxp
          rw [if_pos List.mem_cons_self]
          exact Function.update_self _ _ _
        · rw [if_neg fun hmem => (List.mem_cons.mp hmem).elim hxp hx]
          exact Function.update_of_ne hxp _ _

/-! ### What every state keeps -/

/-- Every call so far is the one that the dependencies determine, and was made
once, when they were there. -/
structure State.Calls (ts : List Template) (r : Template → Template) (s : State) : Prop where
  failed : s.failed = none
  loading : ∀ t ∈ nodes ts, ∀ q, s.status t = .loading q → q = renderedQuery t ((dependencies ts t).map r)
  done : ∀ t ∈ nodes ts, ∀ h, s.status t = .done h → h = r t
  accepted : ∀ t ∈ nodes ts, s.status t ≠ .rejected
  nodup : s.started.Nodup
  started_iff : ∀ t, t ∈ s.started ↔ s.status t ≠ .notStarted
  subset : s.started ⊆ nodes ts
  ready : ∀ t ∈ s.started, ∀ c ∈ children ts t, s.isResolved c

/-- And what has not started yet waits for one of its dependencies. -/
structure State.Sound (ts : List Template) (r : Template → Template) (s : State) : Prop extends s.Calls ts r where
  waiting : ∀ t ∈ nodes ts, s.status t = .notStarted → ∃ c ∈ children ts t, ¬ s.isResolved c

theorem hydrated_eq_some {s : State} {t h : Template} : s.hydrated t = some h ↔ s.status t = .done h := by
  unfold State.hydrated
  cases s.status t <;> simp

theorem isResolved_iff {s : State} {t : Template} : s.isResolved t ↔ ∃ h, s.status t = .done h := by
  rw [State.isResolved, Option.isSome_iff_exists]
  exact exists_congr fun h => hydrated_eq_some

section Runs

variable (hids : ts.Nodup) (hacyclic : ∀ n ∈ nodes ts, Acc (Child (children ts)) n) (hkeeps : Keeps ts r)
  (hsep : Separable ts r)

theorem renderedQuery_same (hacyclic : ∀ n ∈ nodes ts, Acc (Child (children ts)) n) (hkeeps : Keeps ts r)
    (hsep : Separable ts r) {t : Template} (ht : t ∈ nodes ts) {R : List Template} (hR : R ⊆ nodes ts)
    (hdown : ∀ n ∈ R, ∀ c ∈ children ts n, c ∈ R) (hchildren : children ts t ⊆ R) (hnot : t ∉ R) :
    renderedQuery t (R.map r) = renderedQuery t ((dependencies ts t).map r) := by
  unfold renderedQuery
  split
  · next q _ hq hinfluxql =>
    have hnone : t.influxql ≠ none := by rw [hinfluxql]; exact Option.some_ne_none _
    rw [templateReplace_same hacyclic hkeeps ht (hsep t ht q hq hnone) hR hdown hchildren hnot]
  · rfl

/-- The templates that are done, where these are the ones `r` yields. -/
theorem resolvedTemplates_eq {s : State} (hdone : ∀ t ∈ nodes ts, ∀ h, s.status t = .done h → h = r t) :
    s.resolvedTemplates ts = ((nodes ts).filter s.isResolved).map r := by
  unfold State.resolvedTemplates
  rw [← List.filterMap_eq_map, List.filterMap_filter]
  refine List.filterMap_congr fun t ht => ?_
  cases hh : s.hydrated t with
  | none => simp [State.isResolved, hh]
  | some h => simp [State.isResolved, hh, hdone t ht h (hydrated_eq_some.mp hh)]

theorem renderedQuery_none {t : Template} {templates : List Template} (h : t.influxql = none) :
    renderedQuery t templates = pure none := by
  unfold renderedQuery
  split
  · next hsome =>
    rw [h] at hsome
    cases hsome
  · rfl

/-- The query of a template, and what its values make of it. -/
theorem Hydration.query (hr : Hydration fetch selections ts r) {t : Template} (ht : t ∈ nodes ts) :
    ∃ q, renderedQuery t ((dependencies ts t).map r) = some (.ok q) ∧ withValues fetch selections t q = .ok (r t) := by
  have hhydrated := hr.hydrated t ht
  unfold hydrateTemplate at hhydrated
  match hq : renderedQuery t ((dependencies ts t).map r) with
  | none =>
    rw [hq] at hhydrated
    cases hhydrated
  | some (.error e) =>
    rw [hq] at hhydrated
    cases hhydrated
  | some (.ok q) =>
    rw [hq] at hhydrated
    exact ⟨q, rfl, Option.some.inj hhydrated⟩

/-- An outstanding call can end, and its template is there. -/
theorem State.Sound.complete {s : State} (hr : Hydration fetch selections ts r) (h : s.Sound ts r) {t : Template}
    (ht : t ∈ nodes ts) {q : Js (Option String)} (hq : s.status t = .loading q) :
    State.complete fetch selections ts s t = some (s.finish ts t (r t)) := by
  obtain ⟨query, hquery, hvalues⟩ := hr.query ht
  obtain rfl := h.loading t ht q hq
  simp only [State.complete, hq, hquery, hvalues]

theorem complete_eq_some {s s' : State} (hr : Hydration fetch selections ts r) (h : s.Sound ts r) {t : Template}
    (hstep : State.complete fetch selections ts s t = some s') :
    t ∈ nodes ts ∧ (∃ q, s.status t = .loading q) ∧ s' = s.finish ts t (r t) := by
  cases hstatus : s.status t with
  | loading q =>
    have ht : t ∈ nodes ts := h.subset ((h.started_iff t).mpr (by rw [hstatus]; exact Status.noConfusion))
    rw [h.complete hr ht hstatus] at hstep
    exact ⟨ht, ⟨q, rfl⟩, (Option.some.inj hstep).symm⟩
  | notStarted => simp [State.complete, hstatus] at hstep
  | done x => simp [State.complete, hstatus] at hstep
  | rejected => simp [State.complete, hstatus] at hstep

/-- While a call is outstanding, no template that waits for it has been started. -/
theorem State.Sound.parents_fresh {s : State} (h : s.Sound ts r) {t : Template} (hloading : ∃ q, s.status t = .loading q) :
    ∀ p ∈ parents ts t, s.status p = .notStarted ∧ p ≠ t := by
  obtain ⟨q, hq⟩ := hloading
  intro p hp
  have hnot : s.status p = .notStarted := by
    by_contra hne
    have hres := h.ready p ((h.started_iff p).mpr hne) t (of_decide_eq_true (List.mem_filter.mp hp).2)
    obtain ⟨x, hx⟩ := isResolved_iff.mp hres
    rw [hq] at hx
    cases hx
  refine ⟨hnot, ?_⟩
  rintro rfl
  rw [hnot] at hq
  cases hq

/-- The end of a call makes its template available, and no other. -/
theorem State.Sound.finish_hydrated {s : State} (h : s.Sound ts r) {t : Template} (hloading : ∃ q, s.status t = .loading q)
    (x : Template) : (s.finish ts t x).hydrated = Function.update s.hydrated t (some x) := by
  have hnone : ∀ p ∈ (parents ts t).filter fun p => (children ts p).all
      (State.isResolved { s with status := Function.update s.status t (.done x) }),
      State.hydrated { s with status := Function.update s.status t (.done x) } p = none := by
    intro p hp
    obtain ⟨hnot, hne⟩ := h.parents_fresh hloading p (List.mem_filter.mp hp).1
    simp [State.hydrated, hne, hnot]
  refine (foldl_start ts hnone).1.trans (funext fun y => ?_)
  by_cases hy : y = t
  · subst hy
    simp [State.hydrated]
  · simp [State.hydrated, hy]

include hacyclic hkeeps hsep

/-- The templates that have everything they wait for are started. -/
theorem State.Calls.start {s : State} (h : s.Calls ts r) {ps : List Template} (hnodup : ps.Nodup) (hps : ps ⊆ nodes ts)
    (hnew : ∀ p ∈ ps, s.status p = .notStarted) (hready : ∀ p ∈ ps, ∀ c ∈ children ts p, s.isResolved c)
    (hwaiting : ∀ t ∈ nodes ts, s.status t = .notStarted → t ∉ ps → ∃ c ∈ children ts t, ¬ s.isResolved c) :
    (ps.foldl (State.start ts) s).Sound ts r := by
  have hnone : ∀ p ∈ ps, s.hydrated p = none := fun p hp => by rw [State.hydrated, hnew p hp]
  obtain ⟨hhydrated, hstarted, hfailed, hstatus⟩ := foldl_start ts hnone
  have hresolved : (ps.foldl (State.start ts) s).isResolved = s.isResolved := by
    funext t
    rw [State.isResolved, State.isResolved, hhydrated]
  have hdone : ∀ x q, (ps.foldl (State.start ts) s).status x = q → q ≠ .loading (renderedQuery x (s.resolvedTemplates ts)) →
      x ∉ ps ∧ s.status x = q := by
    intro x q hx hne
    rw [hstatus] at hx
    by_cases hmem : x ∈ ps
    · rw [if_pos hmem] at hx
      exact absurd hx.symm hne
    · rw [if_neg hmem] at hx
      exact ⟨hmem, hx⟩
  refine ⟨⟨hfailed.trans h.failed, fun t ht q hq => ?_, fun t ht x hx => ?_, fun t ht hrejected => ?_, ?_, fun t => ?_, ?_,
    fun t ht c hc => ?_⟩, fun t ht hstart => ?_⟩
  · rw [hstatus] at hq
    split_ifs at hq with hmem
    · -- what is started now sees all that is done, which contains its dependencies
      rw [← Status.loading.inj hq, resolvedTemplates_eq h.done]
      refine renderedQuery_same hacyclic hkeeps hsep ht List.filter_sublist.subset (fun n hn c hc => ?_) (fun c hc => ?_) ?_
      · obtain ⟨hnode, hres⟩ := List.mem_filter.mp hn
        obtain ⟨x, hx⟩ := isResolved_iff.mp hres
        have hmem : n ∈ s.started := (h.started_iff n).mpr (by rw [hx]; exact Status.noConfusion)
        exact List.mem_filter.mpr ⟨children_closed ts n hnode c hc, h.ready n hmem c hc⟩
      · exact List.mem_filter.mpr ⟨children_closed ts t ht c hc, hready t hmem c hc⟩
      · intro hres
        obtain ⟨x, hx⟩ := isResolved_iff.mp (List.of_mem_filter hres)
        rw [hnew t hmem] at hx
        cases hx
    · exact h.loading t ht q hq
  · exact h.done t ht x (hdone t _ hx Status.noConfusion).2
  · exact h.accepted t ht (hdone t _ hrejected Status.noConfusion).2
  · rw [hstarted]
    refine List.nodup_append.mpr ⟨h.nodup, hnodup, fun a ha b hb heq => ?_⟩
    exact (h.started_iff a).mp ha (heq ▸ hnew b hb)
  · rw [hstarted, List.mem_append, h.started_iff, hstatus]
    split_ifs with hmem
    · exact iff_of_true (Or.inr hmem) Status.noConfusion
    · exact or_iff_left hmem
  · rw [hstarted]
    exact List.append_subset.mpr ⟨h.subset, hps⟩
  · rw [hresolved]
    rw [hstarted] at ht
    exact (List.mem_append.mp ht).elim (fun ht => h.ready t ht c hc) fun ht => hready t ht c hc
  · obtain ⟨hmem, hold⟩ := hdone t _ hstart Status.noConfusion
    rw [hresolved]
    exact hwaiting t ht hold hmem

theorem sound_init (hids : ts.Nodup) : (State.init ts).Sound ts r := by
  have hnodup : (findLeaves ts).Nodup := ((nodes_perm ts).nodup_iff.mpr hids).filter _
  refine State.Calls.start hacyclic hkeeps hsep ⟨rfl, ?_, ?_, ?_, List.nodup_nil, ?_, List.nil_subset _, ?_⟩ hnodup
    List.filter_sublist.subset (fun _ _ => rfl) (fun p hp c hc => ?_) fun t ht _ hleaf => ?_
  · exact fun t _ q hq => nomatch hq
  · exact fun t _ x hx => nomatch hx
  · exact fun t _ hrejected => nomatch hrejected
  · exact fun t => iff_of_false List.not_mem_nil fun hne => hne rfl
  · exact fun t ht => absurd ht List.not_mem_nil
  · have hnil := List.isEmpty_iff.mp (List.mem_filter.mp hp).2
    rw [hnil] at hc
    exact absurd hc List.not_mem_nil
  · have hne : children ts t ≠ [] := fun hnil => hleaf (List.mem_filter.mpr ⟨ht, List.isEmpty_iff.mpr hnil⟩)
    obtain ⟨c, hc⟩ := List.exists_mem_of_ne_nil _ hne
    exact ⟨c, hc, Bool.false_ne_true⟩

theorem sound_finish (hids : ts.Nodup) {s : State} (h : s.Sound ts r) {t : Template} (ht : t ∈ nodes ts)
    (hloading : ∃ q, s.status t = .loading q) : (s.finish ts t (r t)).Sound ts r := by
  obtain ⟨q, hq⟩ := hloading
  have hstarted : t ∈ s.started := (h.started_iff t).mpr (by rw [hq]; exact Status.noConfusion)
  have hopen : ¬ s.isResolved t := by
    rw [isResolved_iff]
    rintro ⟨x, hx⟩
    rw [hq] at hx
    cases hx
  unfold State.finish
  set s₁ : State := { s with status := Function.update s.status t (.done (r t)) } with hs₁
  have hsame : ∀ x, x ≠ t → s₁.status x = s.status x := fun x hx => Function.update_of_ne hx _ _
  have hself : s₁.status t = .done (r t) := Function.update_self _ _ _
  have hmono : ∀ x, s.isResolved x → s₁.isResolved x := by
    intro x hx
    by_cases hxt : x = t
    · exact absurd (hxt ▸ hx) hopen
    · obtain ⟨y, hy⟩ := isResolved_iff.mp hx
      exact isResolved_iff.mpr ⟨y, (hsame x hxt).trans hy⟩
  have hcalls : s₁.Calls ts r := by
    refine ⟨h.failed, fun x hx q' hq' => ?_, fun x hx y hy => ?_, fun x hx hrejected => ?_, h.nodup, fun x => ?_, h.subset,
      fun x hx c hc => hmono c (h.ready x hx c hc)⟩
    · by_cases hxt : x = t
      · rw [hxt, hself] at hq'
        cases hq'
      · exact h.loading x hx q' ((hsame x hxt).symm.trans hq')
    · by_cases hxt : x = t
      · rw [hxt, hself] at hy
        rw [hxt]
        exact (Status.done.inj hy).symm
      · exact h.done x hx y ((hsame x hxt).symm.trans hy)
    · by_cases hxt : x = t
      · rw [hxt, hself] at hrejected
        cases hrejected
      · exact h.accepted x hx ((hsame x hxt).symm.trans hrejected)
    · by_cases hxt : x = t
      · rw [hxt, hself]
        exact iff_of_true hstarted Status.noConfusion
      · rw [hsame x hxt]
        exact h.started_iff x
  have hfresh := h.parents_fresh ⟨q, hq⟩
  refine State.Calls.start hacyclic hkeeps hsep hcalls ((hids.filter _).filter _) (fun p hp => ?_) (fun p hp => ?_)
    (fun p hp => ?_) fun x hx hstart hmem => ?_
  · exact mem_nodes.mpr (List.mem_filter.mp (List.mem_filter.mp hp).1).1
  · have hp' := (List.mem_filter.mp hp).1
    exact (hsame p (hfresh p hp').2).trans (hfresh p hp').1
  · exact List.all_eq_true.mp (List.mem_filter.mp hp).2
  · have hxt : x ≠ t := by
      rintro rfl
      rw [hself] at hstart
      cases hstart
    obtain ⟨c, hc, hwait⟩ := h.waiting x hx ((hsame x hxt).symm.trans hstart)
    by_contra hall
    push Not at hall
    -- only `t` has become available, so that `x` would have been started
    have hct : c = t := by
      by_contra hct
      obtain ⟨y, hy⟩ := isResolved_iff.mp (hall c hc)
      exact hwait (isResolved_iff.mpr ⟨y, (hsame c hct).symm.trans hy⟩)
    refine hmem (List.mem_filter.mpr ⟨List.mem_filter.mpr ⟨mem_nodes.mp hx, ?_⟩, List.all_eq_true.mpr hall⟩)
    exact decide_eq_true (hct ▸ hc)

/-- In a run every call ends once, and nothing else makes a template available. -/
theorem run_sound (hids : ts.Nodup) (hr : Hydration fetch selections ts r) : ∀ (es : List Template) {s s' : State}, s.Sound ts r →
    Events.run (State.complete fetch selections ts) s es = some s' →
    s'.Sound ts r ∧ es.Nodup ∧ (∀ t ∈ es, ¬ s.isResolved t) ∧ ∀ t, s'.isResolved t ↔ s.isResolved t ∨ t ∈ es
  | [], s, s', h, hrun => by
    obtain rfl : s = s' := Option.some.inj hrun
    exact ⟨h, List.nodup_nil, fun t ht => absurd ht List.not_mem_nil, fun t => (or_iff_left List.not_mem_nil).symm⟩
  | e :: es, s, s', h, hrun => by
    obtain ⟨next, hstep, hrest⟩ := Events.run_cons hrun
    obtain ⟨he, hloading, rfl⟩ := complete_eq_some hr h hstep
    have hopen : ¬ s.isResolved e := by
      rw [isResolved_iff]
      rintro ⟨x, hx⟩
      obtain ⟨q, hq⟩ := hloading
      rw [hq] at hx
      cases hx
    have hnext : ∀ t, (s.finish ts e (r e)).isResolved t ↔ s.isResolved t ∨ t = e := by
      intro t
      rw [State.isResolved, State.isResolved, h.finish_hydrated hloading]
      by_cases hte : t = e
      · subst hte
        simp
      · simp [hte]
    obtain ⟨hsound, hnodup, hnew, hresolved⟩ :=
      run_sound hids hr es (sound_finish hacyclic hkeeps hsep hids h he hloading) hrest
    refine ⟨hsound, List.nodup_cons.mpr ⟨fun hmem => hnew e hmem ((hnext e).mpr (Or.inr rfl)), hnodup⟩, ?_, fun t => ?_⟩
    · exact List.forall_mem_cons.mpr ⟨hopen, fun t ht hres => hnew t ht ((hnext t).mpr (Or.inl hres))⟩
    · rw [hresolved, hnext, List.mem_cons, or_assoc]

omit hkeeps hsep in
/-- A call can end as long as a template is missing. -/
theorem call_ends {s : State} (hr : Hydration fetch selections ts r) (h : s.Sound ts r) {n : Template} (hn : n ∈ nodes ts)
    (hopen : ¬ s.isResolved n) : ∃ t, (State.complete fetch selections ts s t).isSome := by
  induction hacyclic n hn with
  | intro n _ ih =>
    cases hstatus : s.status n with
    | notStarted =>
      obtain ⟨c, hc, hwait⟩ := h.waiting n hn hstatus
      exact ih c hc (children_closed ts n hn c hc) hwait
    | loading q => exact ⟨n, by rw [h.complete hr hn hstatus]; rfl⟩
    | done x => exact absurd (isResolved_iff.mpr ⟨x, hstatus⟩) hopen
    | rejected => exact absurd hstatus (h.accepted n hn)

end Runs

/-- Hydrated templates keep their names, and name no others than before. -/
theorem Hydration.keeps {ns : List Template} (hr : Hydration fetch selections ts r) (hgraph : graphFromTemplates ts = .ok ns)
    (hnamed : Named selections ts) : Keeps ts r := by
  obtain ⟨hnames, -, -⟩ := graphFromTemplates_iff.mp hgraph
  have hquery : ∀ t ∈ nodes ts, ∃ q, (t.influxql = none → q = none) ∧ withValues fetch selections t q = .ok (r t) := by
    intro t ht
    obtain ⟨q, hq, hvalues⟩ := hr.query ht
    refine ⟨q, fun hnone => ?_, hvalues⟩
    rw [renderedQuery_none hnone] at hq
    exact (Except.ok.inj (Option.some.inj hq)).symm
  refine ⟨fun n hn => ?_, fun n hn => ?_, fun n hn m hm hmem => ?_⟩
  · obtain ⟨q, -, hvalues⟩ := hquery n hn
    obtain ⟨values, -, heq⟩ := withValues_ok hvalues
    rw [heq]
  · obtain ⟨q, hnone, hvalues⟩ := hquery n hn
    exact (names_hydrated hnamed hn (hnames n (mem_nodes.mp hn)) hnone hvalues).1
  · obtain ⟨q, hnone, hvalues⟩ := hquery n hn
    have hfewer := (names_hydrated hnamed hn (hnames n (mem_nodes.mp hn)) hnone hvalues).2
    exact mem_children.mpr ⟨hm, hfewer m hm hmem⟩

theorem State.Calls.dependencies {s : State} (hacyclic : ∀ n ∈ nodes ts, Acc (Child (children ts)) n) (h : s.Calls ts r)
    {t d : Template} (ht : t ∈ s.started) (hd : d ∈ dependencies ts t) : s.isResolved d := by
  have hbelow := (mem_dependencies hacyclic (h.subset ht)).mp hd
  induction hbelow using TransGen.head_induction_on with
  | single hc => exact h.ready t ht _ hc
  | @head c m hc hrest ih =>
    obtain ⟨x, hx⟩ := isResolved_iff.mp (ih ((mem_dependencies hacyclic (h.subset ht)).mpr hrest))
    exact h.ready m ((h.started_iff m).mpr (by rw [hx]; exact Status.noConfusion)) c hc

theorem State.Calls.hydrated {s : State} (h : s.Calls ts r) {t : Template} (ht : s.isResolved t) :
    t ∈ nodes ts ∧ s.hydrated t = some (r t) := by
  obtain ⟨x, hx⟩ := isResolved_iff.mp ht
  have hnode : t ∈ nodes ts := h.subset ((h.started_iff t).mpr (by rw [hx]; exact Status.noConfusion))
  exact ⟨hnode, hydrated_eq_some.mpr (h.done t hnode x hx ▸ hx)⟩

/-- A template of a custom meta query. -/
def metaQuery (id tempVar influxql : String) (values : List TemplateValue) : Template :=
  ⟨id, tempVar, values, .metaQuery, some ⟨none, none, none, influxql⟩⟩

/-- The only value of a query. -/
def onlyValue (value : String) : TemplateValue := ⟨value, .metaQuery, true, true, none⟩

/-- One answer is the name of another template. -/
def answers (query : String) : List String :=
  if query = "SHOW A" then ["x:b:"] else if query = "SHOW B" then ["y"] else [query]

def chain : List Template := [metaQuery "b" ":b:" "SHOW B" [], metaQuery "p" ":p:" "SHOW :b:" []]

def chainHydrated (t : Template) : Template :=
  if t.id = "b" then metaQuery "b" ":b:" "SHOW B" [onlyValue "y"] else metaQuery "p" ":p:" "SHOW :b:" [onlyValue "SHOW y"]

/-- What a call returns, if it does. -/
def returned {α : Type} : Js α → Option α
  | some (.ok a) => some a
  | _ => none

theorem eq_of_returned {α : Type} {x : Js α} {a : α} (h : returned x = some a) : x = some (.ok a) := by
  unfold returned at h
  split at h
  · rw [Option.some.inj h]
  · cases h

/-- Two templates with queries and one that names the first of them. -/
def diamond : List Template :=
  [metaQuery "b" ":b:" "SHOW B" [], metaQuery "a" ":a:" "SHOW A" [], metaQuery "p" ":p:" "SHOW :a:" []]

/-- The values after a run. -/
def valuesAfter (ts es : List Template) : Option (List (List String)) :=
  ((Events.run (State.complete answers (fun _ => none) ts) (State.init ts) es).bind (State.result ts)).map
    (·.map fun t => t.values.map (·.value))

end Templates
end Chronograf
