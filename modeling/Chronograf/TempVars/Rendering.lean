/-
# Rendering with more than the dependencies

When a template is started, all templates that are done by then are rendered
into its query. That this is the same as with the templates it depends on alone
needs two things of the texts that arise: the other templates change none of
them, and of two templates that may both be next either can be the first.

Key definitions: `dependencies`, `Hydration`, `Separate`.
Key theorem: `rendered_same`.
-/
import Chronograf.Lib.Checks
import Chronograf.Lib.Extensions
import Chronograf.TempVars.Hydrate

namespace Chronograf
namespace Templates

open DepthFirst Extensions Relation

/-- The templates that a template depends on, directly or through others. -/
def dependencies (ts : List Template) (t : Template) : List Template :=
  (nodes ts).filter fun d => d ≠ t ∧ d ∈ (visit (children ts) (nodes ts).length t ([], [])).2

/-- The first template is rendered before the second one, which it depends on. -/
def Before (a b : Template) : Prop := b.tempVar ∈ a.names

/-- The text with the templates rendered into it. -/
def rendered (query : List Char) (l : List Template) : Js (List Char) := l.foldlM renderTemplate query

/-- Hydrated templates `r`, each with those it depends on alone. -/
structure Hydration (fetch : String → List String) (selections : String → Option String) (ts : List Template)
    (r : Template → Template) : Prop where
  hydrated : ∀ t ∈ nodes ts, hydrateTemplate fetch selections t ((dependencies ts t).map r) = some (.ok (r t))

/-- What is chosen for a text names no templates but those that its values have named. -/
def Named (selections : String → Option String) (ts : List Template) : Prop :=
  ∀ t ∈ nodes ts, t.type = .text → t.influxql = none → ∀ v, truthy (selections t.tempVar) = some v →
    ∃ names, getDependencyNamesHelper v = .ok names ∧ ∀ n ∈ nodes ts, n.tempVar ∈ names → n.tempVar ∈ t.names

/-- On the texts that arise from the query of a template when templates that it
depends on are rendered, each before those it depends on itself: templates that
have nothing to do with it change nothing, and two that can both be next can be
rendered in either order. -/
structure Separate (ts : List Template) (r : Template → Template) (t : Template) (query : List Char) : Prop where
  foreign : ∀ l text, Begins Before ((dependencies ts t).map r) l → rendered query l = pure text → ∀ n ∈ nodes ts,
    n ≠ t → n ∉ dependencies ts t → t ∉ dependencies ts n → renderTemplate text (r n) = pure text
  commute : ∀ l a b, Begins Before ((dependencies ts t).map r) (l ++ [a, b]) →
    Begins Before ((dependencies ts t).map r) (l ++ [b, a]) → rendered query (l ++ [a, b]) = rendered query (l ++ [b, a])

/-! ### The graph -/

theorem nodes_perm (ts : List Template) : (nodes ts).Perm ts := by
  unfold nodes
  refine ((List.perm_insertionSort _ _).append_right _).trans ?_
  exact List.filter_append_perm _ ts

theorem mem_nodes {ts : List Template} {t : Template} : t ∈ nodes ts ↔ t ∈ ts := (nodes_perm ts).mem_iff

theorem mem_children {ts : List Template} {t c : Template} : c ∈ children ts t ↔ c ∈ nodes ts ∧ c.tempVar ∈ t.names := by
  rw [children, List.mem_filter, decide_eq_true_iff]

theorem children_closed (ts : List Template) : ∀ n ∈ nodes ts, ∀ c ∈ children ts n, c ∈ nodes ts :=
  fun _ _ _ hc => (mem_children.mp hc).1

theorem verifyAcyclic_iff {ts : List Template} :
    verifyAcyclic ts = .ok () ↔ ∀ n ∈ nodes ts, Acc (Child (children ts)) n := by
  rw [← acyclic_iff (children_closed ts), verifyAcyclic]
  cases hfound : (nodes ts).findSome? (cyclic ts) with
  | none => exact iff_of_true rfl (List.findSome?_eq_none_iff.mp hfound)
  | some t =>
    have hsome : ¬ (nodes ts).findSome? (cyclic ts) = none := by rw [hfound]; exact Option.some_ne_none t
    exact iff_of_false (fun h => nomatch h) fun h => hsome (List.findSome?_eq_none_iff.mpr h)

/-- A graph is made of templates whose names can be read and that depend on none
of themselves. -/
theorem graphFromTemplates_iff {ts ns : List Template} : graphFromTemplates ts = .ok ns ↔
    (∀ t ∈ ts, ∃ names, getDependencyNames t = .ok names) ∧ (∀ n ∈ nodes ts, Acc (Child (children ts)) n) ∧ ns = nodes ts := by
  have hnames : (ts.forM fun t => getDependencyNames t >>= fun _ => (pure () : Except String Unit)) = .ok () ↔
      ∀ t ∈ ts, ∃ names, getDependencyNames t = .ok names := by
    rw [Except.forM_ok_iff]
    refine forall₂_congr fun t _ => Except.bind_ok_iff.trans ?_
    exact ⟨fun ⟨names, h, _⟩ => ⟨names, h⟩, fun ⟨names, h⟩ => ⟨names, h, rfl⟩⟩
  rw [graphFromTemplates, Except.bind_ok_iff, ← verifyAcyclic_iff]
  constructor
  · rintro ⟨⟨⟩, hall, h⟩
    obtain ⟨⟨⟩, hacyclic, h⟩ := Except.bind_ok_iff.mp h
    cases h
    exact ⟨hnames.mp hall, hacyclic, rfl⟩
  · rintro ⟨hall, hacyclic, rfl⟩
    exact ⟨(), hnames.mpr hall, Except.bind_ok_iff.mpr ⟨(), hacyclic, rfl⟩⟩

theorem names_eq {t : Template} {names : List String} (h : getDependencyNames t = .ok names) : t.names = names := by
  rw [Template.names, h]

theorem mem_dependencies {ts : List Template} {t d : Template} (hacyclic : ∀ n ∈ nodes ts, Acc (Child (children ts)) n)
    (ht : t ∈ nodes ts) : d ∈ dependencies ts t ↔ TransGen (Child (children ts)) d t := by
  rw [dependencies, List.mem_filter, decide_eq_true_iff, mem_reachable_iff (children_closed ts) hacyclic ht,
    reflTransGen_iff_eq_or_transGen]
  constructor
  · rintro ⟨-, hne, heq | hbelow⟩
    · exact absurd heq.symm hne
    · exact hbelow
  · intro hbelow
    refine ⟨reachable_mem (children_closed ts) ht hbelow.to_reflTransGen, ?_, Or.inr hbelow⟩
    rintro rfl
    exact not_below_self (hacyclic d ht) hbelow

/-! ### Names of hydrated templates -/

theorem getDependencyNames_values {t : Template} (h : t.influxql = none) : getDependencyNames t =
    ((t.values.map (·.value)).mapM getDependencyNamesHelper).map List.flatten := by
  rw [getDependencyNames, h, List.mapM_map]
  rfl

theorem mem_of_mapM {α β ε : Type} {f : α → Except ε β} : ∀ {as : List α} {bs : List β} {a : α}, as.mapM f = .ok bs →
    a ∈ as → ∃ b ∈ bs, f a = .ok b
  | [], bs, a, _, ha => absurd ha List.not_mem_nil
  | a' :: as, bs, a, h, ha => by
    simp only [List.mapM_cons, Except.bind_ok_iff] at h
    obtain ⟨b', hb', rest, hrest, heq⟩ := h
    cases heq
    rcases List.mem_cons.mp ha with rfl | ha
    · exact ⟨b', List.mem_cons_self, hb'⟩
    · obtain ⟨b, hb, heq⟩ := mem_of_mapM hrest ha
      exact ⟨b, List.mem_cons_of_mem _ hb, heq⟩

theorem constant_values (t : Template) (hoped : Option String) :
    (newTemplateValueConstant t hoped).map (·.value) = t.values.map (·.value) := by
  unfold newTemplateValueConstant
  cases hvalues : t.values with
  | nil => rfl
  | cons first rest => simp

/-- With one value, its names. -/
theorem getDependencyNames_single {t : Template} {v : TemplateValue} {names : List String} (h : t.influxql = none)
    (hvalues : t.values = [v]) (hnames : getDependencyNamesHelper v.value = .ok names) : getDependencyNames t = .ok names := by
  rw [getDependencyNames_values h, hvalues, List.map_singleton, List.mapM_cons, hnames]
  exact congrArg Except.ok (List.append_nil names)

/-- The names of each value are names of the template. -/
theorem names_of_value {t : Template} {v : TemplateValue} {names : List String} (h : t.influxql = none)
    (hnames : getDependencyNames t = .ok names) (hv : v ∈ t.values) :
    ∃ own, getDependencyNamesHelper v.value = .ok own ∧ own ⊆ names := by
  rw [getDependencyNames_values h] at hnames
  cases hall : (t.values.map (·.value)).mapM getDependencyNamesHelper with
  | error e => rw [hall] at hnames; cases hnames
  | ok lists =>
    rw [hall] at hnames
    cases hnames
    obtain ⟨own, hown, hvalue⟩ := mem_of_mapM hall (List.mem_map_of_mem hv)
    exact ⟨own, hvalue, fun n hn => List.mem_flatten.mpr ⟨own, hown, hn⟩⟩

section Hydrated

variable {fetch : String → List String} {selections : String → Option String} {ts : List Template} {t h : Template}

theorem withValues_ok {query : Option String} (hh : withValues fetch selections t query = .ok h) :
    ∃ values, resolveValues t (query.map fetch) (selections t.tempVar) = .ok values ∧ h = { t with values := values } := by
  obtain ⟨values, hvalues, heq⟩ := Except.bind_ok_iff.mp hh
  cases heq
  exact ⟨values, hvalues, rfl⟩

/-- A hydrated template names no other templates than before. -/
theorem names_hydrated (hnamed : Named selections ts) (ht : t ∈ nodes ts) (hnames : ∃ names, getDependencyNames t = .ok names)
    {query : Option String} (hquery : t.influxql = none → query = none) (hh : withValues fetch selections t query = .ok h) :
    (∃ names, getDependencyNames h = .ok names) ∧ ∀ n ∈ nodes ts, n.tempVar ∈ h.names → n.tempVar ∈ t.names := by
  obtain ⟨values, hvalues, rfl⟩ := withValues_ok hh
  cases hinfluxql : t.influxql with
  | some influxql =>
    have hsame : getDependencyNames { t with values := values } = getDependencyNames t := by
      unfold getDependencyNames
      rw [show Template.influxql { t with values := values } = t.influxql from rfl, hinfluxql]
    refine ⟨hsame ▸ hnames, fun n _ hn => ?_⟩
    rwa [Template.names, hsame] at hn
  | none =>
    have hinfluxql' : Template.influxql { t with values := values } = none := hinfluxql
    rw [hquery hinfluxql] at hvalues
    obtain ⟨names, hnames⟩ := hnames
    have hconstant : ∀ hoped, values = newTemplateValueConstant t hoped →
        (∃ names, getDependencyNames { t with values := values } = .ok names) ∧
          ∀ n ∈ nodes ts, n.tempVar ∈ Template.names { t with values := values } → n.tempVar ∈ t.names := by
      rintro hoped rfl
      have hsame : getDependencyNames { t with values := newTemplateValueConstant t hoped } = getDependencyNames t := by
        rw [getDependencyNames_values hinfluxql', getDependencyNames_values hinfluxql]
        exact congrArg (fun l => (l.mapM getDependencyNamesHelper).map List.flatten) (constant_values t hoped)
      refine ⟨⟨names, hsame.trans hnames⟩, fun n _ hn => ?_⟩
      rwa [Template.names, hsame] at hn
    unfold resolveValues at hvalues
    split at hvalues
    · next htext =>
      cases hvalues
      have hsingle : ∃ v own, newTemplateValueText t (selections t.tempVar) = [v] ∧
          getDependencyNamesHelper v.value = .ok own ∧ ∀ n ∈ nodes ts, n.tempVar ∈ own → n.tempVar ∈ t.names := by
        unfold newTemplateValueText
        cases hchosen : truthy (selections t.tempVar) with
        | some v =>
          obtain ⟨own, hown, hsub⟩ := hnamed t ht htext hinfluxql v hchosen
          exact ⟨_, own, rfl, hown, hsub⟩
        | none =>
          cases hsaved : t.values with
          | nil => exact ⟨_, [], rfl, rfl, fun n _ hn => absurd hn List.not_mem_nil⟩
          | cons v rest =>
            obtain ⟨own, hown, hsub⟩ := names_of_value hinfluxql hnames (hsaved ▸ List.mem_cons_self)
            exact ⟨_, own, rfl, hown, fun n _ hn => names_eq hnames ▸ hsub hn⟩
      obtain ⟨v, own, hvalues, hown, hsub⟩ := hsingle
      have hhydrated := getDependencyNames_single hinfluxql' hvalues hown
      exact ⟨⟨own, hhydrated⟩, fun n hn hmem => hsub n hn (names_eq hhydrated ▸ hmem)⟩
    · exact hconstant _ (Except.ok.inj hvalues).symm
    · exact hconstant _ (Except.ok.inj hvalues).symm
    · cases hvalues
    · cases hvalues
    · cases hvalues

end Hydrated

/-! ### Sorting hydrated templates -/

/-- What of hydrated templates matters for their order: their names are as
before, and what they name is read and among what they have named. -/
structure Keeps (ts : List Template) (r : Template → Template) : Prop where
  tempVar : ∀ n ∈ nodes ts, (r n).tempVar = n.tempVar
  readable : ∀ n ∈ nodes ts, ∃ names, getDependencyNames (r n) = .ok names
  fewer : ∀ n ∈ nodes ts, ∀ m ∈ nodes ts, m.tempVar ∈ (r n).names → m ∈ children ts n

section Sorted

variable {ts : List Template} {r : Template → Template} (hacyclic : ∀ n ∈ nodes ts, Acc (Child (children ts)) n)
  (hr : Keeps ts r) {L : List Template} (hL : L ⊆ nodes ts)

include hr hL

theorem acyclic_hydrated : ∀ {n : Template}, Acc (Child (children ts)) n → n ∈ L → Acc (Child (children (L.map r))) (r n) := by
  intro n hn
  induction hn with
  | intro n _ ih =>
    intro hmem
    refine Acc.intro _ fun c hc => ?_
    obtain ⟨hin, hname⟩ := mem_children.mp hc
    obtain ⟨m, hm, rfl⟩ := List.mem_map.mp (mem_nodes.mp hin)
    rw [hr.tempVar m (hL hm)] at hname
    exact ih m (hr.fewer n (hL hmem) m (hL hm) hname) hm

include hacyclic

theorem sortTemplates_hydrated : sortTemplates (L.map r) = .ok (topologicalSort (L.map r)) := by
  have hgraph : graphFromTemplates (L.map r) = .ok (nodes (L.map r)) := by
    refine graphFromTemplates_iff.mpr ⟨fun t ht => ?_, fun n hn => ?_, rfl⟩
    · obtain ⟨m, hm, rfl⟩ := List.mem_map.mp ht
      exact hr.readable m (hL hm)
    · obtain ⟨m, hm, rfl⟩ := List.mem_map.mp (mem_nodes.mp hn)
      exact acyclic_hydrated hr hL (hacyclic m (hL hm)) hm
  rw [sortTemplates, hgraph]
  rfl

theorem sorted_hydrated : (topologicalSort (L.map r)).Nodup ∧ (∀ x, x ∈ topologicalSort (L.map r) ↔ x ∈ L.map r) ∧
    (topologicalSort (L.map r)).Pairwise fun x y => ¬ Before y x := by
  obtain ⟨hnodup, hclosed, hmem⟩ := postorder_spec (children_closed (L.map r)) fun n hn => by
    obtain ⟨m, hm, rfl⟩ := List.mem_map.mp (mem_nodes.mp hn)
    exact acyclic_hydrated hr hL (hacyclic m (hL hm)) hm
  refine ⟨List.nodup_reverse.mpr hnodup, fun x => ?_, ?_⟩
  · rw [topologicalSort, List.mem_reverse, hmem, mem_nodes]
  · rw [topologicalSort, List.pairwise_reverse]
    refine (hclosed.pairwise hnodup).imp_of_mem fun {x y} _ hy hno hbefore => hno (mem_children.mpr ⟨?_, hbefore⟩)
    exact (hmem y).mp hy

theorem not_before_self : ∀ a ∈ L.map r, ¬ Before a a := by
  intro a ha hself
  obtain ⟨n, hn, rfl⟩ := List.mem_map.mp ha
  unfold Before at hself
  rw [hr.tempVar n (hL hn)] at hself
  exact not_below_self (hacyclic n (hL hn)) (TransGen.single (hr.fewer n (hL hn) n (hL hn) hself))

end Sorted

/-! ### The same text -/

theorem rendered_concat (query : List Char) (l : List Template) (t : Template) :
    rendered query (l ++ [t]) = rendered query l >>= fun text => renderTemplate text t := by
  rw [rendered, List.foldlM_append]
  exact congrArg (_ >>= ·) (funext fun text => bind_pure _)

theorem rendered_congr {query : List Char} {l l' : List Template} (m : List Template) (h : rendered query l = rendered query l') :
    rendered query (l ++ m) = rendered query (l' ++ m) := by
  unfold rendered at h ⊢
  rw [List.foldlM_append, List.foldlM_append, h]

/-- Templates that change nothing can be left out. -/
theorem rendered_filter {before : Template → Template → Prop} {D : List Template} {query : List Char} (keep : Template → Bool)
    {l : List Template} (hbegins : Begins before D (l.filter keep))
    (hskip : ∀ m text t, Begins before D m → rendered query m = pure text → t ∈ l → keep t = false →
      renderTemplate text t = pure text) : rendered query l = rendered query (l.filter keep) := by
  have hfront : ∀ p s, l = p ++ s → rendered query p = rendered query (p.filter keep) := by
    intro p
    induction p using List.reverseRecOn with
    | nil => exact fun _ _ => rfl
    | append_singleton p t ih =>
      intro s hl
      rw [List.append_assoc] at hl
      have hp := ih _ hl
      have hbegin : Begins before D (p.filter keep) := by
        rw [hl, List.filter_append] at hbegins
        exact hbegins.of_append
      rw [rendered_concat, hp, List.filter_append]
      cases hkeep : keep t with
      | true => rw [List.filter_singleton, hkeep]; exact (rendered_concat _ _ _).symm
      | false =>
        rw [List.filter_singleton, hkeep]
        have ht : t ∈ l := hl ▸ List.mem_append_right _ List.mem_cons_self
        simp only [cond_false, List.append_nil]
        match htext : rendered query (p.filter keep) with
        | none => rfl
        | some (.error e) => rfl
        | some (.ok text) => exact hskip _ text t hbegin htext ht hkeep
  exact hfront l [] (List.append_nil l).symm

section Started

variable {ts : List Template} {r : Template → Template} (hacyclic : ∀ n ∈ nodes ts, Acc (Child (children ts)) n)
  (hr : Keeps ts r) {t : Template} (ht : t ∈ nodes ts)

include hacyclic hr ht

/-- A query rendered with all templates that are done is rendered as with those
that its template depends on. -/
theorem templateReplace_same {query : List Char} (hsep : Separate ts r t query) {R : List Template} (hR : R ⊆ nodes ts)
    (hdown : ∀ n ∈ R, ∀ c ∈ children ts n, c ∈ R) (hchildren : children ts t ⊆ R) (hnot : t ∉ R) :
    templateReplace query (R.map r) = templateReplace query ((dependencies ts t).map r) := by
  have hbelow : ∀ {n c : Template}, TransGen (Child (children ts)) c n → n ∈ R → c ∈ R := by
    intro n c h
    induction h using TransGen.head_induction_on with
    | single hc => exact fun hn => hdown n hn _ hc
    | head hc _ ih => exact fun hn => hdown _ (ih hn) _ hc
  have hDR : dependencies ts t ⊆ R := by
    intro d hd
    rcases (TransGen.tail'_iff.mp ((mem_dependencies hacyclic ht).mp hd)) with ⟨x, hdx, hxt⟩
    rcases reflTransGen_iff_eq_or_transGen.mp hdx with rfl | hdx
    · exact hchildren hxt
    · exact hbelow hdx (hchildren hxt)
  have hD : dependencies ts t ⊆ nodes ts := fun d hd => hR (hDR hd)
  obtain ⟨hnodup, hmem, hpairwise⟩ := sorted_hydrated hacyclic hr hR
  obtain ⟨hnodupD, hmemD, hpairwiseD⟩ := sorted_hydrated hacyclic hr hD
  have hkept : ∀ a, a ∈ (topologicalSort (R.map r)).filter (· ∈ (dependencies ts t).map r) ↔ a ∈ (dependencies ts t).map r := by
    intro a
    rw [List.mem_filter, decide_eq_true_iff, hmem]
    exact and_iff_right_of_imp fun ha => List.map_subset r hDR ha
  have hbegins := begins_of_pairwise (hnodup.filter _) hkept (hpairwise.filter _) (not_before_self hacyclic hr hD)
  have hbeginsD := begins_of_pairwise hnodupD hmemD hpairwiseD (not_before_self hacyclic hr hD)
  have hperm := (List.perm_ext_iff_of_nodup (hnodup.filter _) hnodupD).mpr fun a => (hkept a).trans (hmemD a).symm
  have hskip : ∀ m text x, Begins Before ((dependencies ts t).map r) m → rendered query m = pure text →
      x ∈ topologicalSort (R.map r) → decide (x ∈ (dependencies ts t).map r) = false → renderTemplate text x = pure text := by
    intro m text x hm htext hx hno
    obtain ⟨n, hn, rfl⟩ := List.mem_map.mp ((hmem x).mp hx)
    refine hsep.foreign m text hm htext n (hR hn) ?_ ?_ ?_
    · rintro rfl
      exact hnot hn
    · exact fun hdep => of_decide_eq_false hno (List.mem_map_of_mem hdep)
    · exact fun hdep => hnot (hbelow ((mem_dependencies hacyclic (hR hn)).mp hdep) hn)
  have hsame : rendered query (topologicalSort (R.map r)) = rendered query (topologicalSort ((dependencies ts t).map r)) := by
    rw [rendered_filter (· ∈ (dependencies ts t).map r) hbegins hskip]
    exact same_for_all (l := []) (fun _ _ m h => rendered_congr m h) hsep.commute hbegins hbeginsD hperm
  unfold templateReplace
  rw [sortTemplates_hydrated hacyclic hr hR, sortTemplates_hydrated hacyclic hr hD]
  exact hsame

end Started

end Templates
end Chronograf
