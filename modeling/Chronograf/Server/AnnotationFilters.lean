/-
# Filters on annotations

`parseTagQueryParam` and `validAnnotationQuery` of `server/annotations.go`, and
what `AnnotationStore.All` makes of the filters. A filter may be any binary
expression, also one of alternatives, and its text is joined with those of the
conditions by AND alone; and of the rows with one ID the newest one is taken
after the filters have been applied. The filters narrow the annotations exactly
when whatever satisfies a piece of the condition has, as the newest row of its
ID, one in range that satisfies all filters.

Key definitions: `validAnnotationQuery`, `Meaning`, `Shown`, `Narrows`.
Key theorem: `narrows_iff`.
-/
import Chronograf.Influx.AnnotationResults
import Chronograf.Influx.FilteredAnnotations
import Chronograf.Lib.Places
import Chronograf.Server.AnnotationRequests

namespace Chronograf
namespace Annotations

open Influxql Places

/-! ### Parameters -/

/-- The parameters of a request; without tags there are none of them. -/
structure AnnotationQuery where
  since : String
  «until» : String
  tags : List String

inductive QueryError
  | sinceRequired
  | invalidTime
  | invalidTagQueryParam
  deriving DecidableEq

section Parameters

variable (g : Grammar) (single : Expr → String) (parse : String → Option ℤ)

/-- What `ParseExpr` reads of a text; it does not look at what comes after the expression. -/
def parseFilter (tagQuery : String) : Option Expr := (g.parseExpr.run tagQuery.toList).map Prod.fst

def parseTagQueryParam (tagQuery : String) : Except QueryError AnnotationTagFilter :=
  match parseFilter g tagQuery with
  | some (.binary op lhs rhs) => .ok ⟨lhs.text single, rhs.text single, op.string⟩
  | _ => .error .invalidTagQueryParam

def parseQueryTime (text : String) : Except QueryError ℤ :=
  match parse text with
  | some t => .ok t
  | none => .error .invalidTime

/-- If no end is stated, it is the current time. -/
def parseStopTime (now : ℤ) (text : String) : Except QueryError ℤ := if text = "" then .ok now else parseQueryTime parse text

/-- The range, its ends in order, and the filters. -/
def validAnnotationQuery (now : ℤ) (query : AnnotationQuery) : Except QueryError (ℤ × ℤ × List AnnotationTagFilter) :=
  if query.since = "" then .error .sinceRequired
  else do
    let startTime ← parseQueryTime parse query.since
    let stopTime ← parseStopTime parse now query.«until»
    let filters ← query.tags.mapM (parseTagQueryParam g single)
    return if startTime > stopTime then (stopTime, startTime, filters) else (startTime, stopTime, filters)

end Parameters

/-! ### What a condition selects -/

/-- What a server makes of comparisons: those with the time limit the query as a whole. -/
structure Meaning where
  isTime : Expr → Bool
  comparison : Expr → Point → Bool
  deleted : ∀ p, isTime (.binary .eq (.varRef "deleted" .unknown) (.boolean false)) = false ∧
    comparison (.binary .eq (.varRef "deleted" .unknown) (.boolean false)) p = !p.deleted
  time : ∀ start p, isTime (.binary .gte (.varRef "time" .unknown) (.duration start)) = true ∧
    comparison (.binary .gte (.varRef "time" .unknown) (.duration start)) p = decide (start ≤ p.time)
  startTime : ∀ stop p, isTime (.binary .lte (.varRef "start_time" .unknown) (.integer stop)) = false ∧
    comparison (.binary .lte (.varRef "start_time" .unknown) (.integer stop)) p = decide (p.startTime ≤ stop)

namespace Meaning

variable (m : Meaning)

/-- The condition apart from the time. -/
def holds : Expr → Point → Bool
  | .binary .and l r, p => holds l p && holds r p
  | .binary .or l r, p => holds l p || holds r p
  | .paren e, p => holds e p
  | e, p => m.isTime e || m.comparison e p

/-- The time is within all bounds, wherever they are. -/
def inTimes : Expr → Point → Bool
  | .binary .and l r, p => inTimes l p && inTimes r p
  | .binary .or l r, p => inTimes l p && inTimes r p
  | .paren e, p => inTimes e p
  | e, p => !m.isTime e || m.comparison e p

def selects (e : Expr) (p : Point) : Bool := m.inTimes e p && m.holds e p

/-- A bound of the time counts on both sides of an OR. -/
example (l r : Expr) (p : Point) : m.selects (.binary .or l r) p = ((m.inTimes l p && m.inTimes r p) && (m.holds l p || m.holds r p)) := by
  simp [selects, inTimes, holds]

end Meaning

/-- A server that runs the statement its parser reads. -/
def Runs (db : Database) (g : Grammar) (m : Meaning) : Prop :=
  ∀ {command statement condition}, g.parseQuery command = some [.select statement] → statement.condition = some condition →
    db.select command = some (m.selects condition)

/-- What the annotations without filters are of. -/
structure InRange (start stop : ℤ) (p : Point) : Prop where
  live : p.deleted = false
  start_le : start ≤ p.time
  le_stop : p.startTime ≤ stop

/-- The comparisons of all filters hold. -/
def Satisfies (m : Meaning) (fs : List Expr) (p : Point) : Prop := ∀ f ∈ fs, m.selects f p

/-- One of the pieces holds, within all bounds of the time. -/
structure Reached (m : Meaning) (start stop : ℤ) (fs : List Expr) (p : Point) : Prop where
  start_le : start ≤ p.time
  inTimes : ∀ f ∈ fs, m.inTimes f p
  piece : ∃ a ∈ pieces start stop fs, ∀ c ∈ a, m.holds c p

section Pieces

variable {m : Meaning} {e : Expr} {p : Point} {start stop : ℤ} {fs : List Expr}

theorem Meaning.holds_iff (e : Expr) : m.holds e p ↔ ∃ a ∈ e.alternatives, ∀ c ∈ a, m.holds c p := by
  refine (Expr.exists_alternatives (Q := fun e => m.holds e p) ?_ ?_ e).symm <;> intro l r <;> rw [holds]
  · exact Bool.and_eq_true_iff
  · exact Bool.or_eq_true_iff

theorem Meaning.inTimes_iff (e : Expr) : m.inTimes e p ↔ ∀ a ∈ e.alternatives, ∀ c ∈ a, m.inTimes c p := by
  refine (Expr.forall_alternatives (Q := fun e => m.inTimes e p) ?_ ?_ e).symm <;> intro l r <;> rw [inTimes] <;>
    exact Bool.and_eq_true_iff

theorem pieces_concat (f : Expr) : pieces start stop (fs ++ [f]) = joinAlternatives (pieces start stop fs) f.alternatives := by
  rw [pieces, List.foldl_append]
  rfl

theorem pieces_ne_nil (start stop : ℤ) (fs : List Expr) : pieces start stop fs ≠ [] := by
  induction fs using List.reverseRecOn with
  | nil => exact List.cons_ne_nil _ _
  | append_singleton fs f ih =>
    obtain ⟨G, g, hG⟩ := (List.eq_nil_or_concat' (pieces start stop fs)).resolve_left ih
    obtain ⟨b, B, hf, _⟩ := f.alternatives_cons
    rw [pieces_concat, hG, hf, joinAlternatives_append]
    exact List.append_ne_nil_of_right_ne_nil _ (List.cons_ne_nil _ _)

theorem inTimes_pieces : (∀ a ∈ pieces start stop fs, ∀ c ∈ a, m.inTimes c p) ↔ start ≤ p.time ∧ ∀ f ∈ fs, m.inTimes f p := by
  induction fs using List.reverseRecOn with
  | nil =>
    have hconjuncts : (∀ c ∈ inRangeConjuncts start stop, m.inTimes c p) ↔ start ≤ p.time := by
      simp [inRangeConjuncts, Meaning.inTimes, (m.deleted p).1, (m.time start p).1, (m.time start p).2, (m.startTime stop p).1]
    simp [pieces, hconjuncts]
  | append_singleton fs f ih =>
    rw [pieces_concat, forall_join (pieces_ne_nil start stop fs) f.alternatives_ne_nil, ih, ← Meaning.inTimes_iff, List.forall_mem_append,
      List.forall_mem_singleton, and_assoc]

/-- What is in range and satisfies the filters has a piece that holds. -/
theorem piece_of_satisfies (hp : InRange start stop p) (hfs : ∀ f ∈ fs, m.holds f p) :
    ∃ a ∈ pieces start stop fs, ∀ c ∈ a, m.holds c p := by
  induction fs using List.reverseRecOn with
  | nil =>
    refine ⟨inRangeConjuncts start stop, List.mem_singleton_self _, ?_⟩
    simp [inRangeConjuncts, Meaning.holds, (m.deleted p).2, (m.time start p).1, (m.startTime stop p).2, hp.live, hp.le_stop]
  | append_singleton fs f ih =>
    obtain ⟨hfs, hf⟩ := List.forall_mem_append.mp hfs
    rw [pieces_concat]
    exact exists_join (ih hfs) ((m.holds_iff f).mp (hf f List.mem_cons_self))

theorem reached_of_satisfies (hp : InRange start stop p) (hfs : Satisfies m fs p) : Reached m start stop fs p where
  start_le := hp.start_le
  inTimes f hf := (Bool.and_eq_true_iff.mp (hfs f hf)).1
  piece := piece_of_satisfies hp fun f hf => (Bool.and_eq_true_iff.mp (hfs f hf)).2

theorem selects_iff_reached {T : Expr} (hT : T.alternatives = pieces start stop fs) : m.selects T p ↔ Reached m start stop fs p := by
  rw [Meaning.selects, Bool.and_eq_true_iff, Meaning.inTimes_iff, Meaning.holds_iff, hT, inTimes_pieces]
  exact ⟨fun ⟨⟨hstart, htimes⟩, hpiece⟩ => ⟨hstart, htimes, hpiece⟩, fun h => ⟨⟨h.start_le, h.inTimes⟩, h.piece⟩⟩

theorem reached_nil : Reached m start stop [] p ↔ InRange start stop p := by
  constructor
  · rintro ⟨hstart, _, a, ha, hall⟩
    rw [List.mem_singleton.mp ha] at hall
    simp only [inRangeConjuncts, List.forall_mem_cons, Meaning.holds, (m.deleted p).1, (m.deleted p).2, (m.time start p).1,
      (m.startTime stop p).1, (m.startTime stop p).2] at hall
    simp at hall
    exact ⟨hall.1, hstart, hall.2⟩
  · exact fun h => reached_of_satisfies h (List.forall_mem_nil _)

end Pieces

/-! ### The rows that are shown -/

section Rows

variable {ps rows before after : List Point} {p q r : Point} {sel : Point → Bool} {P : Point → Prop} {anno : Annotation}

/-- A row gives way to another one of its ID that was modified later, or at the same time and comes first. -/
def Outdated (ps : List Point) (r q : Point) : Prop :=
  r.modifiedTimeNs < q.modifiedTimeNs ∨ r.modifiedTimeNs = q.modifiedTimeNs ∧ (byTime ps).idxOf q < (byTime ps).idxOf r

/-- Of the rows with an ID that have a property, the one that is shown. -/
structure Shown (ps : List Point) (P : Point → Prop) (q : Point) : Prop where
  mem : q ∈ ps
  holds : P q
  newest : ∀ r ∈ ps, P r → r.id = q.id → r ≠ q → Outdated ps r q

/-- The row of a point. -/
def toRow (p : Point) : Row := (ofPoint p, p.modifiedTimeNs)

theorem mem_ofRows {rows : List Point} {anno : Annotation} : anno ∈ ofRows rows ↔ ∃ t, Newest (rows.map toRow) (anno, t) := by
  have hkept := kept_foldl (rows.map toRow)
  have hfold : rows.foldl latest [] = (rows.map toRow).foldl take [] := by
    rw [List.foldl_map]
    rfl
  rw [ofRows, hfold, List.mem_map]
  constructor
  · rintro ⟨⟨a, t⟩, ha, rfl⟩
    exact ⟨t, (hkept.newest (a, t)).mp ha⟩
  · rintro ⟨t, ht⟩
    exact ⟨(anno, t), (hkept.newest (anno, t)).mpr ht, rfl⟩

/-- The row that is shown among those of a list that are taken. -/
theorem newest_filter_iff {l : List Point} (hl : l.Nodup) : (∃ t, Newest ((l.filter sel).map toRow) (anno, t)) ↔
    ∃ q ∈ l, sel q ∧ ofPoint q = anno ∧ ∀ r ∈ l, sel r → r.id = q.id → r ≠ q →
      r.modifiedTimeNs < q.modifiedTimeNs ∨ r.modifiedTimeNs = q.modifiedTimeNs ∧ l.idxOf q < l.idxOf r := by
  constructor
  · rintro ⟨t, before, after, hsplit, hbefore, hafter⟩
    obtain ⟨l₁, l', hfilter, rfl, hl'⟩ := List.map_eq_append_iff.mp hsplit
    obtain ⟨q, l₂, rfl, hq, rfl⟩ := List.map_eq_cons_iff.mp hl'
    obtain ⟨m₁, m', rfl, rfl, hm'⟩ := List.filter_eq_append_iff.mp hfilter
    obtain ⟨n₁, m₂, rfl, hn₁, hsel, rfl⟩ := List.filter_eq_cons_iff.mp hm'
    obtain ⟨rfl, rfl⟩ := Prod.mk.inj hq
    refine ⟨q, by simp, hsel, rfl, fun r hr hrsel hid hne => ?_⟩
    rw [← List.append_assoc] at hl ⊢
    rw [← List.append_assoc, List.mem_append, List.mem_append, List.mem_cons] at hr
    rcases hr with (hr | hr) | rfl | hr
    · exact .inl (hbefore (toRow r) (List.mem_map_of_mem (List.mem_filter.mpr ⟨hr, hrsel⟩)) hid)
    · exact absurd hrsel (hn₁ r hr)
    · exact absurd rfl hne
    · have hle := hafter (toRow r) (List.mem_map_of_mem (List.mem_filter.mpr ⟨hr, hrsel⟩)) hid
      rcases lt_or_eq_of_le hle with hlt | heq
      · exact .inl hlt
      · exact .inr ⟨heq, (idxOf_split hl).2 hr⟩
  · rintro ⟨q, hq, hsel, rfl, hnewest⟩
    obtain ⟨before, after, rfl⟩ := List.append_of_mem hq
    have hdisj := List.nodup_append.mp hl
    refine ⟨q.modifiedTimeNs, (before.filter sel).map toRow, (after.filter sel).map toRow, ?_, ?_, ?_⟩
    · rw [List.filter_append, List.filter_cons_of_pos hsel, List.map_append, List.map_cons]
      rfl
    · intro b hb hid
      obtain ⟨r, hr, rfl⟩ := List.mem_map.mp hb
      obtain ⟨hr, hrsel⟩ := List.mem_filter.mp hr
      have hne : r ≠ q := fun heq => hdisj.2.2 r hr q List.mem_cons_self heq
      rcases hnewest r (List.mem_append_left _ hr) hrsel hid hne with hlt | ⟨_, hidx⟩
      · exact hlt
      · exact absurd ((idxOf_split hl).1 hr) (not_lt.mpr hidx.le)
    · intro b hb hid
      obtain ⟨r, hr, rfl⟩ := List.mem_map.mp hb
      obtain ⟨hr, hrsel⟩ := List.mem_filter.mp hr
      have hne : r ≠ q := by
        rintro rfl
        exact (List.nodup_cons.mp hdisj.2.1).1 hr
      rcases hnewest r (List.mem_append_right _ (List.mem_cons_of_mem q hr)) hrsel hid hne with hlt | ⟨heq, _⟩
      · exact hlt.le
      · exact heq.le

/-- What a query shows. -/
theorem mem_query_iff (hps : ps.Nodup) : anno ∈ ofRows (byTime (ps.filter sel)) ↔ ∃ q, Shown ps (sel · = true) q ∧ ofPoint q = anno := by
  have hmem : ∀ p, p ∈ byTime ps ↔ p ∈ ps := fun p => List.mem_insertionSort _
  have hnodup : (byTime ps).Nodup := (List.perm_insertionSort _ ps).nodup_iff.mpr hps
  rw [byTime, insertionSort_filter, mem_ofRows, newest_filter_iff hnodup]
  constructor
  · rintro ⟨q, hq, hsel, rfl, hnewest⟩
    exact ⟨q, ⟨(hmem q).mp hq, hsel, fun r hr => hnewest r ((hmem r).mpr hr)⟩, rfl⟩
  · rintro ⟨q, hq, rfl⟩
    exact ⟨q, (hmem q).mpr hq.mem, hq.holds, rfl, fun r hr => hq.newest r ((hmem r).mp hr)⟩

theorem Outdated.asymm (h : Outdated ps r q) : ¬ Outdated ps q r := by
  rintro (hlt | ⟨heq, hidx⟩)
  · rcases h with h | ⟨h, _⟩ <;> omega
  · rcases h with h | ⟨_, h⟩ <;> omega

/-- For every row that has a property one is shown. -/
theorem exists_shown (hps : ps.Nodup) (hp : p ∈ ps) (hP : P p) : ∃ q, Shown ps P q ∧ q.id = p.id := by
  classical
  let sel : Point → Bool := fun p => decide (P p)
  have hsel : (fun p => sel p = true) = P := funext fun p => propext decide_eq_true_iff
  have hkept := kept_foldl ((byTime (ps.filter sel)).map toRow)
  have hrow : toRow p ∈ (byTime (ps.filter sel)).map toRow :=
    List.mem_map_of_mem ((List.mem_insertionSort _).mpr (List.mem_filter.mpr ⟨hp, decide_eq_true hP⟩))
  obtain ⟨⟨anno, t⟩, hb, hid⟩ := hkept.every (toRow p) hrow
  obtain ⟨q, hq, rfl⟩ := (mem_query_iff hps).mp (mem_ofRows.mpr ⟨t, (hkept.newest _).mp hb⟩)
  rw [hsel] at hq
  exact ⟨q, hq, hid⟩

/-- The rows shown of those that are reached are the good ones among the rows shown
of those in range, if and only if a reached row is hidden by a good one in range. -/
theorem shown_reached_iff {I S R : Point → Prop} (hps : ps.Nodup) (hgood : ∀ q, I q → S q → R q) :
    (∀ q, Shown ps R q ↔ Shown ps I q ∧ S q) ↔
      ∀ p ∈ ps, R p → ∃ q, q.id = p.id ∧ I q ∧ S q ∧ Shown ps (fun r => I r ∨ R r) q := by
  constructor
  · intro h p hp hR
    obtain ⟨q, hq, hid⟩ := exists_shown hps hp hR
    obtain ⟨hI, hS⟩ := (h q).mp hq
    refine ⟨q, hid, hI.holds, hS, hI.mem, .inl hI.holds, fun r hr hrange hrid hne => ?_⟩
    rcases hrange with hrI | hrR
    · exact hI.newest r hr hrI hrid hne
    · exact hq.newest r hr hrR hrid hne
  · intro h q
    have hsame : ∀ {P : Point → Prop}, (∀ r, P r → I r ∨ R r) → (∀ r, I r → S r → P r) → Shown ps P q → R q →
        I q ∧ S q ∧ Shown ps (fun r => I r ∨ R r) q := by
      intro P hsub hP hq hR
      obtain ⟨q', hid, hI, hS, hq'⟩ := h q hq.mem hR
      by_cases heq : q' = q
      · rw [heq] at hI hS hq'
        exact ⟨hI, hS, hq'⟩
      · have hlate := hq.newest q' hq'.mem (hP q' hI hS) hid heq
        exact absurd (hq'.newest q hq.mem (hsub q hq.holds) hid.symm (Ne.symm heq)) hlate.asymm
    constructor
    · intro hq
      obtain ⟨hI, hS, hshown⟩ := hsame (fun _ => .inr) hgood hq hq.holds
      exact ⟨⟨hq.mem, hI, fun r hr hrI => hshown.newest r hr (.inl hrI)⟩, hS⟩
    · rintro ⟨hq, hS⟩
      obtain ⟨_, _, hshown⟩ := hsame (fun _ => .inl) (fun r hI _ => hI) hq (hgood q hq.holds hS)
      exact ⟨hq.mem, hgood q hq.holds hS, fun r hr hrR => hshown.newest r hr (.inr hrR)⟩

end Rows

/-! ### What the filters do -/

section Filters

variable {g h : Grammar} {single : Expr → String} {parse : String → Option ℤ} {unixNano : ℤ → ℤ} {now start stop : ℤ} {query : AnnotationQuery}
  {filters : List AnnotationTagFilter} {m : Meaning} {db : Database} {ps : List Point} {fs : List Expr}

/-- With the filters come the annotations without them that satisfy all comparisons. -/
def Narrows (m : Meaning) (db : Database) (ps : List Point) (start stop : ℤ) (fs : List Expr) (filters : List AnnotationTagFilter) : Prop :=
  ∃ annos filtered, all db ps start stop [] = .ok annos ∧ all db ps start stop filters = .ok filtered ∧
    ∀ anno, anno ∈ filtered ↔ anno ∈ annos ∧ ∃ q ∈ ps, ofPoint q = anno ∧ InRange start stop q ∧ Satisfies m fs q

/-- What is shown for filters that are read. -/
theorem all_eq (hg : h.Spaced) (hn : h.Numbers) (hdb : Runs db h m) (hps : ps.Nodup) (hstart : Representable start) (hstop : Representable stop)
    (hread : List.Forall₂ (fun f e => h.parseExpr.run (AnnotationTagFilter.string f).toList = some (e, [])) filters fs) :
    ∃ annos, all db ps start stop filters = .ok annos ∧
      ∀ anno, anno ∈ annos ↔ ∃ q, Shown ps (Reached m start stop fs) q ∧ ofPoint q = anno := by
  have htexts : List.Forall₂ (fun s f => h.parseExpr.run s.toList = some (f, [])) (filters.map AnnotationTagFilter.string) fs :=
    List.forall₂_map_left_iff.mpr hread
  obtain ⟨statement, T, hquery, hcondition, hT⟩ := parseQuery_allAnnotations hg hn hstart hstop htexts
  have hselect := hdb hquery hcondition
  refine ⟨ofRows (byTime (ps.filter (m.selects T))), ?_, fun anno => ?_⟩
  · rw [all]
    show queryAnnotations db ps (allAnnotations start stop (filterExpr _)) = _
    rw [queryAnnotations, hselect]
  · rw [mem_query_iff hps, funext fun p => propext (selects_iff_reached (p := p) hT)]

theorem parseTagQueryParam_ok {tag : String} {f : AnnotationTagFilter} (hf : parseTagQueryParam g single tag = .ok f) :
    ∃ e, parseFilter g tag = some e ∧ AnnotationTagFilter.string f = e.text single := by
  rw [parseTagQueryParam] at hf
  split at hf
  · next op lhs rhs hparse =>
    cases hf
    exact ⟨_, hparse, rfl⟩
  · cases hf

/-- The text of each filter is read as the parameter was. -/
theorem forall₂_filters : ∀ {tags : List String} {filters : List AnnotationTagFilter},
    tags.mapM (parseTagQueryParam g single) = .ok filters →
    (∀ tag ∈ tags, ∀ e, parseFilter g tag = some e → h.parseExpr.run (e.text single).toList = some (e, [])) →
      List.Forall₂ (fun f e => h.parseExpr.run (AnnotationTagFilter.string f).toList = some (e, [])) filters
        (tags.filterMap (parseFilter g))
  | [], filters, hfilters, _ => by
    cases hfilters
    exact .nil
  | tag :: tags, filters, hfilters, hback => by
    rw [List.mapM_cons, Except.bind_ok_iff] at hfilters
    obtain ⟨f, hf, hfilters⟩ := hfilters
    obtain ⟨fs, hfs, heq⟩ := Except.bind_ok_iff.mp hfilters
    cases heq
    obtain ⟨e, hparse, htext⟩ := parseTagQueryParam_ok hf
    obtain ⟨hfirst, hrest⟩ := List.forall_mem_cons.mp hback
    rw [List.filterMap_cons_some hparse]
    exact .cons (htext ▸ hfirst e hparse) (forall₂_filters hfs hrest)

theorem filters_of_valid (hquery : validAnnotationQuery g single parse now query = .ok (start, stop, filters)) :
    query.tags.mapM (parseTagQueryParam g single) = .ok filters := by
  rw [validAnnotationQuery] at hquery
  split_ifs at hquery
  obtain ⟨t, _, hquery⟩ := Except.bind_ok_iff.mp hquery
  obtain ⟨t', _, hquery⟩ := Except.bind_ok_iff.mp hquery
  obtain ⟨fs, hfs, hreturn⟩ := Except.bind_ok_iff.mp hquery
  split_ifs at hreturn <;> cases hreturn <;> exact hfs

/-- The filters narrow exactly when no row that satisfies a piece of the condition
hides that the newest row of its ID is in range and satisfies all filters. -/
theorem narrows_iff (hg : h.Spaced) (hn : h.Numbers) (hdb : Runs db h m) (hnano : ∀ t, Representable (unixNano t))
    (hkeys : (ps.map Point.key).Nodup) (hquery : validAnnotationQuery g single parse now query = .ok (start, stop, filters))
    (hback : ∀ tag ∈ query.tags, ∀ e, parseFilter g tag = some e → h.parseExpr.run (e.text single).toList = some (e, [])) :
    Narrows m db ps (unixNano start) (unixNano stop) (query.tags.filterMap (parseFilter g)) filters ↔
      ∀ p ∈ ps, Reached m (unixNano start) (unixNano stop) (query.tags.filterMap (parseFilter g)) p →
        ∃ q, q.id = p.id ∧ InRange (unixNano start) (unixNano stop) q ∧ Satisfies m (query.tags.filterMap (parseFilter g)) q ∧
          Shown ps (fun r => InRange (unixNano start) (unixNano stop) r ∨
            Reached m (unixNano start) (unixNano stop) (query.tags.filterMap (parseFilter g)) r) q := by
  have hfilters := filters_of_valid hquery
  have hstart := hnano start
  have hstop := hnano stop
  have hps : ps.Nodup := List.Nodup.of_map _ hkeys
  have hread := forall₂_filters hfilters hback
  generalize query.tags.filterMap (parseFilter g) = fs at *
  generalize unixNano start = start at *
  generalize unixNano stop = stop at *
  obtain ⟨annos, hannos, hall⟩ := all_eq hg hn hdb hps hstart hstop .nil
  obtain ⟨filtered, hfiltered, hshown⟩ := all_eq hg hn hdb hps hstart hstop hread
  have hinj : ∀ {p q}, p ∈ ps → q ∈ ps → ofPoint p = ofPoint q → p = q :=
    fun hp hq heq => List.inj_on_of_nodup_map hkeys hp hq (key_ofPoint heq)
  have hnil : Reached m start stop [] = InRange start stop := funext fun p => propext reached_nil
  rw [hnil] at hall
  rw [← shown_reached_iff hps fun q => reached_of_satisfies]
  constructor
  · rintro ⟨annos', filtered', hannos', hfiltered', hnarrow⟩ q
    obtain rfl : annos = annos' := Except.ok.inj (hannos.symm.trans hannos')
    obtain rfl : filtered = filtered' := Except.ok.inj (hfiltered.symm.trans hfiltered')
    constructor
    · intro hq
      obtain ⟨hmem, q', hq', heq, hrange, hsat⟩ := (hnarrow (ofPoint q)).mp ((hshown _).mpr ⟨q, hq, rfl⟩)
      obtain rfl := hinj hq' hq.mem heq
      obtain ⟨q'', hq'', heq'⟩ := (hall _).mp hmem
      obtain rfl := hinj hq''.mem hq' heq'
      exact ⟨hq'', hsat⟩
    · rintro ⟨hq, hsat⟩
      have hmem := (hnarrow (ofPoint q)).mpr ⟨(hall _).mpr ⟨q, hq, rfl⟩, q, hq.mem, rfl, hq.holds, hsat⟩
      obtain ⟨q', hq', heq⟩ := (hshown _).mp hmem
      obtain rfl := hinj hq'.mem hq.mem heq
      exact hq'
  · intro h
    refine ⟨annos, filtered, hannos, hfiltered, fun anno => ?_⟩
    rw [hshown, hall]
    constructor
    · rintro ⟨q, hq, rfl⟩
      obtain ⟨hrange, hsat⟩ := (h q).mp hq
      exact ⟨⟨q, hrange, rfl⟩, q, hq.mem, rfl, hrange.holds, hsat⟩
    · rintro ⟨⟨q, hq, rfl⟩, q', hq', heq, _, hsat⟩
      obtain rfl := hinj hq' hq.mem heq
      exact ⟨q', (h q').mpr ⟨hq, hsat⟩, rfl⟩

/-- Filters without alternatives reach what is in range and satisfies them. -/
theorem reached_iff_of_conjunctions {p : Point} (hfs : ∀ f ∈ fs, ∀ l r, f ≠ .binary .or l r) :
    Reached m start stop fs p ↔ InRange start stop p ∧ Satisfies m fs p := by
  have hpieces : pieces start stop fs = [inRangeConjuncts start stop ++ fs.flatMap Expr.conjuncts] := by
    induction fs using List.reverseRecOn with
    | nil => rfl
    | append_singleton fs f ih =>
      obtain ⟨hfs, hf⟩ := List.forall_mem_append.mp hfs
      rw [pieces_concat, ih hfs, Expr.alternatives_single (hf f List.mem_cons_self), List.flatMap_append, List.flatMap_singleton,
        ← List.append_assoc]
      rfl
  refine ⟨fun h => ?_, fun ⟨hrange, hsat⟩ => reached_of_satisfies hrange hsat⟩
  obtain ⟨a, ha, hall⟩ := h.piece
  rw [hpieces, List.mem_singleton] at ha
  obtain ⟨hrange, hfilters⟩ := List.forall_mem_append.mp (ha ▸ hall)
  refine ⟨reached_nil.mp ⟨h.start_le, List.forall_mem_nil _, _, List.mem_singleton_self _, hrange⟩, fun f hf => ?_⟩
  refine Bool.and_eq_true_iff.mpr ⟨h.inTimes f hf, ?_⟩
  exact (Expr.forall_conjuncts (Q := fun e => m.holds e p) (fun l r => by rw [Meaning.holds]; exact Bool.and_eq_true_iff) f).mp
    fun c hc => hfilters c (List.mem_flatMap.mpr ⟨f, hf, hc⟩)

end Filters

/-! ### A server -/

namespace Literals

open Grammar

/-- A number of nanoseconds with its unit. -/
def nanoseconds (lit : String) : Option ℤ :=
  match lit.toList.reverse with
  | 's' :: 'n' :: digits => some (atoi (String.ofList digits.reverse))
  | _ => none

def parseLiteral : Parser Expr := do
  match ← scanToken with
  | .integer lit => pure (.integer (atoi lit))
  | .durationVal lit =>
    match nanoseconds lit with
    | some i => pure (.duration i)
    | none => Parser.fail
  | _ => Parser.fail

/-- A grammar whose other operands are integers and nanoseconds. -/
def grammar : Grammar := ⟨fun _ => Parser.fail, parseLiteral, Parser.fail⟩

theorem parseLiteral_cases {cs rest : List Char} {e : Expr} (h : parseLiteral.run cs = some (e, rest)) :
    ∃ t, scanIgnoreWhitespace cs = (t, rest) ∧ t.Ended ∧ e.operands = [e] ∧
      ∀ cs' rest', scanIgnoreWhitespace cs' = (t, rest') → parseLiteral.run cs' = some (e, rest') := by
  obtain ⟨t, mid, hscan⟩ : ∃ t mid, scanIgnoreWhitespace cs = (t, mid) := ⟨_, _, rfl⟩
  have hrun : ∀ cs' rest', scanIgnoreWhitespace cs' = (t, rest') →
      parseLiteral.run cs' = (match t with
        | .integer lit => (pure (.integer (atoi lit)) : Parser Expr)
        | .durationVal lit =>
          match nanoseconds lit with
          | some i => pure (.duration i)
          | none => Parser.fail
        | _ => Parser.fail).run rest' := by
    intro cs' rest' hcs'
    rw [parseLiteral, run_scanToken_bind, hcs']
  rw [hrun cs mid hscan] at h
  cases t with
  | integer lit =>
    cases h
    exact ⟨_, hscan, trivial, rfl, fun cs' rest' hcs' => hrun cs' rest' hcs'⟩
  | durationVal lit =>
    cases hlit : nanoseconds lit with
    | none =>
      dsimp only at h
      rw [hlit] at h
      cases h
    | some i =>
      dsimp only at h
      rw [hlit] at h
      cases h
      refine ⟨_, hscan, trivial, rfl, fun cs' rest' hcs' => ?_⟩
      rw [hrun cs' rest' hcs']
      dsimp only
      rw [hlit]
      rfl
  | _ => cases h

theorem grammar_spaced : grammar.Spaced where
  operand_append h more := by
    obtain ⟨t, hscan, ht, _, hrun⟩ := parseLiteral_cases h
    exact hrun _ _ (scanIgnoreWhitespace_append more hscan ht)
  operand_space {cs r} h := by
    obtain ⟨e, rest⟩ := r
    obtain ⟨t, hscan, ht, _, hrun⟩ := parseLiteral_cases h
    exact hrun _ _ (scanIgnoreWhitespace_space_cons hscan ht)
  operand_single _ _ _ h := by
    obtain ⟨_, _, _, hsingle, _⟩ := parseLiteral_cases h
    exact hsingle
  regex_append h := nomatch h
  regex_single _ _ _ h := nomatch h

theorem atoi_repr (i : ℤ) : atoi (Int.repr i) = i := by
  rw [Int.repr_eq_if]
  split_ifs with hi
  · obtain ⟨c, ds, htext, hc, _, hvalue⟩ := natRepr_digits i.toNat
    rw [atoi, htext]
    split
    · next heq =>
      cases heq
      exact absurd hc (by decide)
    · next heq =>
      cases heq
      exact absurd hc (by decide)
    · rw [hvalue]
      omega
  · obtain ⟨c, ds, htext, _, _, hvalue⟩ := natRepr_digits (-i).toNat
    have hminus : ("-" ++ (-i).toNat.repr).toList = '-' :: c :: ds := by
      rw [String.toList_append, htext]
      rfl
    have hatoi : atoi ("-" ++ (-i).toNat.repr) = -(Nat.ofDigitChars 10 (c :: ds) 0 : ℕ) := by
      rw [atoi, hminus]
      rfl
    rw [hatoi, hvalue]
    omega

theorem grammar_numbers : grammar.Numbers where
  integer {i} _ := by
    show parseLiteral.run _ = _
    rw [parseLiteral, run_scanToken_bind, scan_integer]
    show some (Expr.integer (atoi (Int.repr i)), []) = _
    rw [atoi_repr]
  nanoseconds {i} _ := by
    have hnano : nanoseconds (Int.repr i ++ "ns") = some i := by
      have hreverse : (Int.repr i ++ "ns").toList.reverse = 's' :: 'n' :: (Int.repr i).toList.reverse := by
        rw [String.toList_append, List.reverse_append]
        rfl
      have hlit : nanoseconds (Int.repr i ++ "ns") = some (atoi (String.ofList (Int.repr i).toList.reverse.reverse)) := by
        rw [nanoseconds, hreverse]
        rfl
      rw [hlit, List.reverse_reverse, String.ofList_toList, atoi_repr]
    show parseLiteral.run _ = _
    rw [parseLiteral, run_scanToken_bind, scan_nanoseconds]
    show (match nanoseconds (Int.repr i ++ "ns") with
      | some i => (pure (Expr.duration i) : Parser Expr)
      | none => Parser.fail).run [] = _
    rw [hnano]
    rfl

local instance lawfulBEqTag : LawfulBEq (String × String) := inferInstance

/-- Comparisons of the time, the deletion, the start and tags. -/
def meaning : Meaning where
  isTime e :=
    match e with
    | .binary .gte (.varRef "time" _) (.duration _) => true
    | _ => false
  comparison e p :=
    match e with
    | .binary .eq (.varRef "deleted" _) (.boolean b) => p.deleted = b
    | .binary .gte (.varRef "time" _) (.duration d) => d ≤ p.time
    | .binary .lte (.varRef "start_time" _) (.integer i) => p.startTime ≤ i
    | .binary .eq (.varRef key _) (.string v) => (key, v) ∈ p.tags.members.toList
    | _ => false
  deleted p := ⟨rfl, by cases p.deleted <;> simp⟩
  time _ _ := ⟨rfl, rfl⟩
  startTime _ _ := ⟨rfl, rfl⟩

/-- A server that runs what its parser reads. -/
def server : Database where
  select command :=
    match grammar.parseQuery command with
    | some [.select statement] => statement.condition.map meaning.selects
    | _ => none

theorem server_runs : Runs server grammar meaning := by
  intro command statement condition hparse hcondition
  show (match grammar.parseQuery command with
    | some [.select statement] => statement.condition.map meaning.selects
    | _ => none) = _
  rw [hparse]
  dsimp only
  rw [hcondition, Option.map_some]

/-- Names and texts between quotes. -/
def single : Expr → String
  | .varRef key _ => "\"" ++ key ++ "\""
  | .string v => "'" ++ v ++ "'"
  | _ => ""

/-- A tag has a value. -/
def tagIs (key v : String) : Expr := .binary .eq (.varRef key .unknown) (.string v)

def tagText (key v : String) : List Char := '"' :: (key.toList ++ '"' :: ' ' :: '=' :: ' ' :: '\'' :: (v.toList ++ ['\'']))

section Reading

variable {key v : String} {cs : List Char}

theorem run_equals (hv : Influx.Request.Text v) (e : Expr) :
    (Parser.iterate grammar.parseOperator e).run (' ' :: '=' :: ' ' :: '\'' :: (v.toList ++ '\'' :: cs)) =
      (Parser.iterate grammar.parseOperator (Expr.insert .eq (.string v) e)).run cs := by
  have heq : scanIgnoreWhitespace (' ' :: '=' :: ' ' :: '\'' :: (v.toList ++ '\'' :: cs)) =
      (.op .eq, ' ' :: '\'' :: (v.toList ++ '\'' :: cs)) := rfl
  have hstring : scanIgnoreWhitespace (' ' :: '\'' :: (v.toList ++ '\'' :: cs)) = (.string v, cs) := by
    rw [scanIgnoreWhitespace_space (by decide) (by decide)]
    exact scan_literal_iff.mpr ⟨hv, rfl⟩
  exact Parser.run_iterate_of_inl parseOperator_takes (parseOperator_of_op heq (by decide) (parseUnaryExpr_of_string hstring))

theorem toList_tagText (cs : List Char) : tagText key v ++ cs =
    '"' :: (key.toList ++ '"' :: ' ' :: '=' :: ' ' :: '\'' :: (v.toList ++ '\'' :: cs)) := by
  simp [tagText]

/-- A comparison at the beginning. -/
theorem parse_tagIs (hk : Influx.Request.Name key) (hv : Influx.Request.Text v) (cs : List Char) :
    grammar.parseExpr.run (tagText key v ++ cs) = (Parser.iterate grammar.parseOperator (tagIs key v)).run cs := by
  have hname : scanIgnoreWhitespace (tagText key v ++ cs) =
      (.ident key, ' ' :: '=' :: ' ' :: '\'' :: (v.toList ++ '\'' :: cs)) := by
    rw [toList_tagText, scanIgnoreWhitespace, scan_quoted_iff.mpr ⟨hk, rfl⟩]
  rw [parseExpr, Parser.run_bind_of_some (parseUnaryExpr_of_ident hname (.inr rfl)), run_equals hv]
  rfl

/-- An alternative after it. -/
theorem run_or_tagIs (hk : Influx.Request.Name key) (hv : Influx.Request.Text v) (op : Operator) (l r : Expr) (cs : List Char) :
    (Parser.iterate grammar.parseOperator (.binary op l r)).run (' ' :: ("OR".toList ++ ' ' :: (tagText key v ++ cs))) =
      (Parser.iterate grammar.parseOperator (.binary .or (.binary op l r) (tagIs key v))).run cs := by
  have hor : isWord "OR".toList (.op .or) := by decide +kernel
  rw [toList_tagText, Parser.run_iterate_of_inl parseOperator_takes (parseOperator_of_op (scanIgnoreWhitespace_space_word hor _)
    (by decide) (parseUnaryExpr_of_ident (Influx.Request.scan_name hk _) (.inr rfl))), run_equals hv, Expr.insert_or]
  rfl

end Reading

/-- One letter, between quotes. -/
theorem name_of_letter {c : Char} (hc : c ∈ ['a', 'b', 'c', 'd']) :
    Influx.Request.Name (String.ofList [c]) ∧ Influx.Request.Text (String.ofList [c]) := by
  rw [Influx.Request.Name, Influx.Request.Text, String.toList_ofList, Quotes.Plain, Quotes.Plain, List.forall_mem_singleton, List.forall_mem_singleton]
  simp only [List.mem_cons, List.not_mem_nil, or_false] at hc
  rcases hc with rfl | rfl | rfl | rfl <;> decide

def oneTag : String := "\"c\" = 'd'"

def twoTags : String := "\"a\" = 'b' OR \"c\" = 'd'"

theorem parse_oneTag : grammar.parseExpr.run oneTag.toList = some (tagIs "c" "d", []) := by
  have htext : oneTag.toList = tagText "c" "d" ++ [] := rfl
  rw [htext, parse_tagIs (name_of_letter (c := 'c') (by decide)).1 (name_of_letter (c := 'd') (by decide)).2]
  exact Parser.run_iterate_of_inr (parseOperator_stop nofun)

theorem parse_twoTags : grammar.parseExpr.run twoTags.toList = some (.binary .or (tagIs "a" "b") (tagIs "c" "d"), []) := by
  have htext : twoTags.toList = tagText "a" "b" ++ ' ' :: ("OR".toList ++ ' ' :: (tagText "c" "d" ++ [])) := rfl
  rw [htext, parse_tagIs (name_of_letter (c := 'a') (by decide)).1 (name_of_letter (c := 'b') (by decide)).2, tagIs,
    run_or_tagIs (name_of_letter (c := 'c') (by decide)).1 (name_of_letter (c := 'd') (by decide)).2]
  exact Parser.run_iterate_of_inr (parseOperator_stop nofun)

/-- Two times as they are written, in nanoseconds. -/
def parseInstant (text : String) : Option ℤ :=
  if text = "1970-01-01T00:00:00Z" then some 0 else if text = "1970-01-01T00:00:01Z" then some 1000000000 else none

def query (tags : List String) : AnnotationQuery := ⟨"1970-01-01T00:00:00Z", "1970-01-01T00:00:01Z", tags⟩

theorem valid_query {tag : String} {l r : Expr} {o : Operator} (hparse : parseFilter grammar tag = some (.binary o l r)) :
    validAnnotationQuery grammar single parseInstant 0 (query [tag]) =
      .ok (0, 1000000000, [⟨l.text single, r.text single, o.string⟩]) := by
  have hsince : parseQueryTime parseInstant (query [tag]).since = .ok 0 := rfl
  have huntil : parseStopTime parseInstant 0 (query [tag]).«until» = .ok 1000000000 := rfl
  have hfilters : (query [tag]).tags.mapM (parseTagQueryParam grammar single) = .ok [⟨l.text single, r.text single, o.string⟩] := by
    show [tag].mapM _ = _
    rw [List.mapM_cons, parseTagQueryParam, hparse]
    rfl
  have hrequired : ¬ (query [tag]).since = "" := by
    show ¬ "1970-01-01T00:00:00Z" = ""
    decide
  rw [validAnnotationQuery, if_neg hrequired, hsince, huntil, hfilters]
  rfl

/-- Nanoseconds of the times for which there are some. -/
def unixNano (t : ℤ) : ℤ := if -2 ^ 63 < t ∧ t < 2 ^ 63 then t else 0

theorem unixNano_representable (t : ℤ) : Representable (unixNano t) := by
  rw [unixNano]
  split_ifs with ht
  · exact ht
  · exact ⟨by decide, by decide⟩

/-- A row whose tag `c` is `d`. -/
def tagged (deleted : Bool) : Point :=
  ⟨"1", addTag noTags ⟨("c", "d"), by decide⟩, 5, deleted, 0, 0, "deploy"⟩

theorem selects_tagged (deleted : Bool) : meaning.selects (tagIs "c" "d") (tagged deleted) = true := by
  cases deleted <;> decide

theorem tagged_keys (deleted : Bool) : ([tagged deleted].map Point.key).Nodup := List.nodup_singleton _

theorem text_tagIs : (tagIs "c" "d").text single = oneTag := rfl

end Literals

open Literals in
/-- A live row that satisfies its filter. -/
theorem narrows_oneTag : ∃ filters, validAnnotationQuery grammar Literals.single parseInstant 0 (Literals.query [oneTag]) = .ok (0, 1000000000, filters) ∧
    Narrows meaning server [tagged false] (unixNano 0) (unixNano 1000000000) [tagIs "c" "d"] filters := by
  have hparse : parseFilter grammar oneTag = some (tagIs "c" "d") := by rw [parseFilter, parse_oneTag]; rfl
  have hvalid := valid_query hparse
  have hread : [oneTag].filterMap (parseFilter grammar) = [tagIs "c" "d"] := by
    rw [List.filterMap_cons_some hparse, List.filterMap_nil]
  have hback : ∀ tag ∈ (Literals.query [oneTag]).tags, ∀ e, parseFilter grammar tag = some e →
      grammar.parseExpr.run (e.text Literals.single).toList = some (e, []) := by
    intro tag htag e he
    rw [List.mem_singleton.mp htag, hparse] at he
    obtain rfl := Option.some.inj he
    rw [text_tagIs, parse_oneTag]
  have hiff := narrows_iff grammar_spaced grammar_numbers server_runs unixNano_representable (tagged_keys false) hvalid hback
  rw [show (Literals.query [oneTag]).tags = [oneTag] from rfl, hread] at hiff
  refine ⟨_, hvalid, hiff.mpr fun p hp _ => ⟨p, rfl, ?_⟩⟩
  obtain rfl := List.mem_singleton.mp hp
  have hrange : InRange (unixNano 0) (unixNano 1000000000) (tagged false) := ⟨rfl, by decide, by decide⟩
  refine ⟨hrange, List.forall_mem_singleton.mpr (selects_tagged false), hp, .inl hrange, fun r hr _ _ hne => ?_⟩
  exact absurd (List.mem_singleton.mp hr) hne

open Literals in
/-- Alternatives reach a row that is deleted. -/
theorem not_narrows_twoTags : ∃ filters,
    validAnnotationQuery grammar Literals.single parseInstant 0 (Literals.query [twoTags]) = .ok (0, 1000000000, filters) ∧
    ¬ Narrows meaning server [tagged true] (unixNano 0) (unixNano 1000000000) [.binary .or (tagIs "a" "b") (tagIs "c" "d")] filters := by
  have hparse : parseFilter grammar twoTags = some (.binary .or (tagIs "a" "b") (tagIs "c" "d")) := by rw [parseFilter, parse_twoTags]; rfl
  have htext : AnnotationTagFilter.string ⟨(tagIs "a" "b").text Literals.single, (tagIs "c" "d").text Literals.single, Operator.string .or⟩ = twoTags := by
    decide +kernel
  have hback : grammar.parseExpr.run (AnnotationTagFilter.string
      ⟨(tagIs "a" "b").text Literals.single, (tagIs "c" "d").text Literals.single, Operator.string .or⟩).toList =
        some (.binary .or (tagIs "a" "b") (tagIs "c" "d"), []) := by rw [htext, parse_twoTags]
  refine ⟨_, valid_query hparse, ?_⟩
  rintro ⟨annos, filtered, hannos, hfiltered, hnarrow⟩
  have hstart := unixNano_representable 0
  have hstop := unixNano_representable 1000000000
  have hps : [tagged true].Nodup := List.nodup_singleton _
  obtain ⟨annos', hannos', hall⟩ := all_eq grammar_spaced grammar_numbers server_runs hps hstart hstop .nil
  obtain ⟨filtered', hfiltered', hshown⟩ := all_eq grammar_spaced grammar_numbers server_runs hps hstart hstop (.cons hback .nil)
  obtain rfl : filtered = filtered' := Except.ok.inj (hfiltered.symm.trans hfiltered')
  have hreached : Reached meaning (unixNano 0) (unixNano 1000000000) [.binary .or (tagIs "a" "b") (tagIs "c" "d")] (tagged true) := by
    refine ⟨by decide, List.forall_mem_singleton.mpr (by decide), [tagIs "c" "d"], List.mem_cons_of_mem _ List.mem_cons_self, ?_⟩
    exact List.forall_mem_singleton.mpr (by decide)
  have hmem : ofPoint (tagged true) ∈ filtered :=
    (hshown _).mpr ⟨_, ⟨List.mem_cons_self, hreached, fun r hr _ _ hne => absurd (List.mem_singleton.mp hr) hne⟩, rfl⟩
  obtain ⟨_, q, hq, _, hrange, _⟩ := (hnarrow _).mp hmem
  rw [List.mem_singleton.mp hq] at hrange
  exact Bool.noConfusion hrange.live

end Annotations
end Chronograf
