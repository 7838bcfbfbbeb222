/-
# Scrolling through the logs

The rows of the table should be log points in the order of time, each once and
none left out between the ends. The initial load is such a stretch. A call for
older logs begins at the millisecond of the oldest row, and leaves out what of
this millisecond is not loaded; a call for newer logs keeps one row for each
millisecond, and repeats rows that were loaded as older ones.

Key definitions: `Near`, `Safe`, `SafeRun`.
Key theorems: `stretch_load`, `stretch_fetchOlderLogsAsync`,
`stretch_fetchNewerLogsAsync`, `stretch_of_safeRun`.
-/
import Chronograf.Logs.InfiniteScroll

namespace Chronograf
namespace Logs

variable {α : Type}

/-- The table has log points that satisfy the filters, the latest first, each once and
none left out between the ends. -/
def Whole (db : Database α) (s : TableInfiniteData α) : Prop := Stretch db.Satisfies LogPoint.time s.rows

/-- Less than a page of log points are before this one, from `start` on. -/
def Near (db : Database α) (start : ℤ) (p : LogPoint α) : Prop :=
  db.Satisfies p ∧ start ≤ p.time ∧
    (db.points.filter fun q => db.filters.all (· q) ∧ start ≤ q.time ∧ q.time < p.time).length < INITIAL_LIMIT

/-- Scrolling down, all of the last row's millisecond is loaded. Scrolling up, there is
a row that was loaded as a newer one, unless the table is empty, and no millisecond has
two log points of these rows and the next page. -/
def Safe (db : Database α) (s : TableInfiniteData α) : Scroll → Prop
  | .loadMoreBelowRows now => ∀ o, s.rows.getLast? = some o → toISOString (lastTime s now) ≤ o.time ∧
      ∀ p, db.Satisfies p → toISOString (lastTime s now) ≤ p.time → p.time ≤ o.time → p ∈ s.rows
  | .loadMoreAboveRows now => (s.forward = [] → s.backward = []) ∧
      (∀ n, s.rows.head? = some n → toISOString (firstTime s now) ≤ n.time) ∧
      ∀ p q, p ∈ s.forward ∨ Near db (toISOString (firstTime s now)) p →
        q ∈ s.forward ∨ Near db (toISOString (firstTime s now)) q → responseTime p.time = responseTime q.time → p = q

def SafeRun (db : Database α) : TableInfiniteData α → List Scroll → Prop
  | _, [] => True
  | s, c :: cs => Safe db s c ∧ SafeRun db (perform db s c) cs

/-! ### Milliseconds -/

theorem responseTime_toISOString (ms : ℤ) : responseTime (toISOString ms) = ms := Int.mul_tdiv_cancel ms (by decide)

theorem responseTime_mono {a b : ℤ} (h : a ≤ b) : responseTime a ≤ responseTime b := Int.tdiv_le_tdiv (by decide) h

/-- From the beginning of its millisecond up to a time, all is in this millisecond. -/
theorem responseTime_eq {a b : ℤ} (hlower : toISOString (responseTime b) ≤ a) (hupper : a ≤ b) :
    responseTime a = responseTime b := by
  have h := responseTime_mono hlower
  rw [responseTime_toISOString] at h
  exact le_antisymm (responseTime_mono hupper) h

theorem lt_toISOString (time : ℤ) : time < toISOString (responseTime time) + 1000000 := by
  have h := Int.mul_tdiv_add_tmod time 1000000
  have hlt := Int.tmod_lt_of_pos time (by decide : (0 : ℤ) < 1000000)
  unfold toISOString responseTime
  omega

theorem lt_findNewerUpperTimeBounds (count : ℤ → ℤ → ℕ) (time : ℤ) :
    time < findNewerUpperTimeBounds count (toISOString (responseTime time)) := by
  have h := le_newerUpper count (toISOString (responseTime time)) (moment (toISOString (responseTime time)) + 1000 * 5) 5 (by decide)
  have hlt := lt_toISOString time
  unfold findNewerUpperTimeBounds
  unfold toISOString moment at *
  omega

/-! ### The initial load and older logs -/

theorem head?_rows (s : TableInfiniteData α) : s.rows.head? = s.forward.head?.or s.backward.head? := List.head?_append

theorem getLast?_rows (s : TableInfiniteData α) : s.rows.getLast? = s.backward.getLast?.or s.forward.getLast? :=
  List.getLast?_append

variable (db : Database α)

theorem stretch_load (selected : ℤ) (s : TableInfiniteData α) : Whole db (load db selected s) := by
  have hnewer := page_answer db selected (findNewerUpperTimeBounds db.count selected) .ascending
  have holder := page_answer db (findOlderLowerTimeBounds db.count selected) selected .descending
  refine (Page.reachesDown hnewer).stretch_append (Page.reachesUp holder) (fun p hp => ?_)
    ⟨List.nodup_reverse.mpr hnewer.nodup, holder.nodup⟩ ⟨List.pairwise_reverse.mpr hnewer.ordered, holder.ordered⟩
  rcases List.mem_append.mp hp with hp | hp
  · exact (hnewer.mem p (List.mem_reverse.mp hp)).1
  · exact (holder.mem p hp).1

variable {db} {s : TableInfiniteData α}

theorem le_of_getLast? {o : LogPoint α} (h : Whole db s) (ho : s.rows.getLast? = some o) {p : LogPoint α} (hp : p ∈ s.rows) :
    o.time ≤ p.time := by
  obtain ⟨before, hrows⟩ := List.getLast?_eq_some_iff.mp ho
  have hdesc := h.descending
  rw [hrows] at hp hdesc
  rcases List.mem_append.mp hp with hp | hp
  · exact (List.pairwise_append.mp hdesc).2.2 p hp o List.mem_cons_self
  · rw [List.mem_singleton.mp hp]

/-- The rows reach down to where the call for older logs begins. -/
theorem reachesDown_rows (h : Whole db s) {now : ℤ} (hsafe : Safe db s (.loadMoreBelowRows now)) :
    ReachesDown db.Satisfies LogPoint.time (toISOString (lastTime s now)) s.rows := by
  cases ho : s.rows.getLast? with
  | none =>
    rw [List.getLast?_eq_none_iff.mp ho]
    exact ⟨fun a ha => absurd ha List.not_mem_nil, fun _ _ _ b hb => absurd hb List.not_mem_nil⟩
  | some o =>
    obtain ⟨hcut, hedge⟩ := hsafe o ho
    refine ⟨fun a ha => hcut.trans (le_of_getLast? h ho ha), fun p hp hlower b hb hlt => ?_⟩
    rcases le_or_gt p.time o.time with hle | hgt
    · exact hedge p hp hlower hle
    · exact h.gapless p hp o (List.mem_of_getLast? ho) b hb hgt hlt

theorem stretch_fetchOlderLogsAsync (h : Whole db s) {now : ℤ} (hsafe : Safe db s (.loadMoreBelowRows now)) :
    Whole db (perform db s (.loadMoreBelowRows now)) := by
  have hpage := page_answer db (findOlderLowerTimeBounds db.count (toISOString (lastTime s now)))
    (toISOString (lastTime s now)) .descending
  have hrows : (perform db s (.loadMoreBelowRows now)).rows = s.rows ++ db.answer ⟨buildInfiniteScrollLogQuery
      (findOlderLowerTimeBounds db.count (toISOString (lastTime s now))) (toISOString (lastTime s now)) db.filters, .descending⟩ :=
    (List.append_assoc _ _ _).symm
  unfold Whole
  rw [hrows]
  refine (reachesDown_rows h hsafe).stretch_append (Page.reachesUp hpage) (fun p hp => ?_) ⟨h.nodup, hpage.nodup⟩
    ⟨h.descending, hpage.ordered⟩
  rcases List.mem_append.mp hp with hp | hp
  · exact h.mem p hp
  · exact (hpage.mem p hp).1

/-! ### Newer logs -/

theorem uniqBy_of_pairwise {β κ : Type} [DecidableEq κ] {key : β → κ} {bs : List β} (h : bs.Pairwise fun a b => key a ≠ key b) :
    uniqBy key bs = bs := by
  induction bs with
  | nil => rfl
  | cons b bs ih =>
    obtain ⟨hb, hbs⟩ := List.pairwise_cons.mp h
    rw [uniqBy, ih hbs, List.filter_eq_self.mpr fun c hc => decide_eq_true (hb c hc).symm]

/-- The second one of two equal elements is dropped. -/
theorem uniqBy_append {β κ : Type} [DecidableEq κ] {key : β → κ} {bs cs : List β} {n : β}
    (h : (bs ++ n :: cs).Pairwise fun a b => key a ≠ key b) : uniqBy key (bs ++ n :: n :: cs) = bs ++ n :: cs := by
  induction bs with
  | nil =>
    have hn : (n :: cs).Pairwise fun a b => key a ≠ key b := h
    have hcs : (n :: cs).filter (fun c => key c ≠ key n) = cs := by
      rw [List.filter_cons]
      simp only [ne_eq, not_true_eq_false, decide_false, Bool.false_eq_true, if_false]
      exact List.filter_eq_self.mpr fun c hc => decide_eq_true ((List.pairwise_cons.mp hn).1 c hc).symm
    rw [List.nil_append, List.nil_append, uniqBy, uniqBy_of_pairwise hn, hcs]
  | cons b bs ih =>
    rw [List.cons_append, List.pairwise_cons] at h
    obtain ⟨hb, hbs⟩ := h
    rw [List.cons_append, uniqBy, ih hbs, List.filter_eq_self.mpr fun c hc => decide_eq_true (hb c hc).symm, List.cons_append]

/-- What is at or before a row of the page is near its beginning. -/
theorem near_of_le {start upper : ℤ} {page : List (LogPoint α)}
    (hpage : Page (fun p => db.Satisfies p ∧ start ≤ p.time ∧ p.time < upper) Order.ascending.Rel INITIAL_LIMIT page)
    {n p : LogPoint α} (hn : n ∈ page) (hp : db.Satisfies p) (hstart : start ≤ p.time) (hle : p.time ≤ n.time) :
    Near db start p := by
  refine ⟨hp, hstart, ?_⟩
  -- all that is before is on the page, and the row itself is not before
  have hsub : ∀ q ∈ n :: db.points.filter (fun q => db.filters.all (· q) ∧ start ≤ q.time ∧ q.time < p.time), q ∈ page := by
    intro q hq
    rcases List.mem_cons.mp hq with rfl | hq
    · exact hn
    · obtain ⟨hpoint, hq⟩ := List.mem_filter.mp hq
      obtain ⟨hfilters, hlower, hlt⟩ := of_decide_eq_true hq
      by_contra hne
      have hupper := (hpage.mem n hn).2.2
      have hsat : db.Satisfies q := ⟨hpoint, List.all_eq_true.mp hfilters⟩
      have hrel : n.time ≤ q.time := (hpage.rest q ⟨hsat, hlower, by omega⟩ hne).2 n hn
      omega
  have hnodup : (n :: db.points.filter (fun q => db.filters.all (· q) ∧ start ≤ q.time ∧ q.time < p.time)).Nodup := by
    refine List.nodup_cons.mpr ⟨fun hmem => ?_, db.nodup.filter _⟩
    obtain ⟨-, -, hlt⟩ := of_decide_eq_true (List.mem_filter.mp hmem).2
    omega
  have hlength := (List.subperm_of_subset hnodup hsub).length_le
  rw [List.length_cons] at hlength
  have := hpage.length
  omega

theorem pairwise_of_nodup {β κ : Type} {key : β → κ} {bs : List β} (h : bs.Nodup)
    (hinj : ∀ a ∈ bs, ∀ b ∈ bs, key a = key b → a = b) : bs.Pairwise fun a b => key a ≠ key b := by
  refine List.Pairwise.imp_of_mem ?_ h
  intro a b ha hb hne hkey
  exact hne (hinj a ha b hb hkey)

section Newest

variable {start upper : ℤ} {page : List (LogPoint α)} {n : LogPoint α} {t back : List (LogPoint α)}
  (hpage : Page (fun p => db.Satisfies p ∧ start ≤ p.time ∧ p.time < upper) Order.ascending.Rel INITIAL_LIMIT page)
  (hrows : Stretch db.Satisfies LogPoint.time (n :: t ++ back)) (hstart : toISOString (responseTime n.time) = start)
  (hle : start ≤ n.time) (hupper : n.time < upper)
  (hdistinct : ∀ p q, p ∈ n :: t ∨ Near db start p → q ∈ n :: t ∨ Near db start q → responseTime p.time = responseTime q.time → p = q)

include hpage hrows hstart hle hupper hdistinct

/-- The newest row is the first one of the page. -/
theorem exists_page_cons : ∃ rest, page = n :: rest := by
  have hsat : db.Satisfies n := hrows.mem n List.mem_cons_self
  have hmem : n ∈ page := by
    by_contra hne
    obtain ⟨hfull, hall⟩ := hpage.rest n ⟨hsat, hle, hupper⟩ hne
    obtain ⟨x, rest, rfl⟩ := List.exists_cons_of_length_pos (l := page) (by rw [hfull]; decide)
    have hx := hpage.mem x List.mem_cons_self
    have hxn : x.time ≤ n.time := hall x List.mem_cons_self
    have hms : responseTime x.time = responseTime n.time := responseTime_eq (hstart ▸ hx.2.1) hxn
    have hnear := near_of_le hpage List.mem_cons_self hx.1 hx.2.1 (le_refl _)
    obtain rfl := hdistinct x n (.inr hnear) (.inl List.mem_cons_self) hms
    exact hne List.mem_cons_self
  cases page with
  | nil => exact absurd hmem List.not_mem_nil
  | cons x rest =>
    have hx := hpage.mem x List.mem_cons_self
    have hxn : x.time ≤ n.time := by
      rcases List.mem_cons.mp hmem with rfl | hmem
      · exact le_refl _
      · exact (List.pairwise_cons.mp hpage.ordered).1 n hmem
    have hnear := near_of_le hpage List.mem_cons_self hx.1 hx.2.1 (le_refl _)
    obtain rfl := hdistinct x n (.inr hnear) (.inl List.mem_cons_self) (responseTime_eq (hstart ▸ hx.2.1) hxn)
    exact ⟨rest, rfl⟩

/-- The other rows are before the page. -/
theorem lt_of_mem_rest : ∀ q ∈ t ++ back, q.time < start := by
  intro q hq
  obtain ⟨hfirst, -⟩ := List.pairwise_cons.mp hrows.descending
  by_contra hge
  have hms : responseTime q.time = responseTime n.time := responseTime_eq (hstart ▸ not_lt.mp hge) (hfirst q hq)
  obtain ⟨rest, rfl⟩ := exists_page_cons hpage hrows hstart hle hupper hdistinct
  have hnear := near_of_le hpage List.mem_cons_self (hrows.mem q (List.mem_cons_of_mem _ hq)) (not_lt.mp hge) (hfirst q hq)
  obtain rfl := hdistinct q n (.inr hnear) (.inl List.mem_cons_self) hms
  exact (List.nodup_cons.mp hrows.nodup).1 hq

end Newest

/-- A page before rows that end where it begins, as the table keeps it. -/
theorem stretch_uniqBy {start upper : ℤ} {page t back : List (LogPoint α)} {n : LogPoint α}
    (hpage : Page (fun p => db.Satisfies p ∧ start ≤ p.time ∧ p.time < upper) Order.ascending.Rel INITIAL_LIMIT page)
    (hrows : Stretch db.Satisfies LogPoint.time (n :: t ++ back)) (hstart : toISOString (responseTime n.time) = start)
    (hle : start ≤ n.time) (hupper : n.time < upper)
    (hdistinct : ∀ p q, p ∈ n :: t ∨ Near db start p → q ∈ n :: t ∨ Near db start q →
      responseTime p.time = responseTime q.time → p = q) :
    Stretch db.Satisfies LogPoint.time (uniqBy (fun p : LogPoint α => responseTime p.time) (page.reverse ++ n :: t) ++ back) := by
  have hbefore := lt_of_mem_rest hpage hrows hstart hle hupper hdistinct
  obtain ⟨rest, rfl⟩ := exists_page_cons hpage hrows hstart hle hupper hdistinct
  have hreach := Page.reachesDown hpage
  have hnear : ∀ p ∈ n :: rest, Near db start p := fun p hp =>
    near_of_le hpage hp (hpage.mem p hp).1 (hpage.mem p hp).2.1 (le_refl _)
  have hup : ReachesUp db.Satisfies LogPoint.time start (t ++ back) := by
    refine ⟨hbefore, fun p hp hlt a ha hgt => ?_⟩
    have hmem := hrows.gapless p hp a (List.mem_cons_of_mem _ ha) n List.mem_cons_self hgt (lt_of_lt_of_le hlt hle)
    rcases List.mem_cons.mp hmem with rfl | hmem
    · exact absurd hlt (not_lt.mpr hle)
    · exact hmem
  obtain ⟨hn, hdesc⟩ := List.pairwise_cons.mp hrows.descending
  have hstretch : Stretch db.Satisfies LogPoint.time ((n :: rest).reverse ++ (t ++ back)) := by
    refine hreach.stretch_append hup (fun p hp => ?_) ⟨List.nodup_reverse.mpr hpage.nodup, (List.nodup_cons.mp hrows.nodup).2⟩
      ⟨List.pairwise_reverse.mpr hpage.ordered, hdesc⟩
    rcases List.mem_append.mp hp with hp | hp
    · exact (hpage.mem p (List.mem_reverse.mp hp)).1
    · exact hrows.mem p (List.mem_cons_of_mem _ hp)
  -- the newest row is read again, and dropped
  have hkept : uniqBy (fun p : LogPoint α => responseTime p.time) ((n :: rest).reverse ++ n :: t) = rest.reverse ++ n :: t := by
    rw [List.reverse_cons, List.append_assoc]
    refine uniqBy_append (pairwise_of_nodup ?_ fun a ha b hb => hdistinct a b ?_ ?_)
    · have hsub : (rest.reverse ++ n :: t).Sublist ((n :: rest).reverse ++ (t ++ back)) := by
        rw [List.reverse_cons, List.append_assoc, List.singleton_append, ← List.cons_append, ← List.append_assoc]
        exact List.sublist_append_left _ _
      exact hstretch.nodup.sublist hsub
    · rcases List.mem_append.mp ha with ha | ha
      · exact .inr (hnear a (List.mem_cons_of_mem _ (List.mem_reverse.mp ha)))
      · exact .inl ha
    · rcases List.mem_append.mp hb with hb | hb
      · exact .inr (hnear b (List.mem_cons_of_mem _ (List.mem_reverse.mp hb)))
      · exact .inl hb
  have hsame : rest.reverse ++ n :: t ++ back = (n :: rest).reverse ++ (t ++ back) := by simp
  rw [hkept, hsame]
  exact hstretch

theorem stretch_fetchNewerLogsAsync (h : Whole db s) {now : ℤ} (hsafe : Safe db s (.loadMoreAboveRows now)) :
    Whole db (perform db s (.loadMoreAboveRows now)) := by
  obtain ⟨hforward, hnewest, hdistinct⟩ := hsafe
  have hpage := page_answer db (toISOString (firstTime s now))
    (findNewerUpperTimeBounds db.count (toISOString (firstTime s now))) .ascending
  unfold Whole TableInfiniteData.rows perform fetchNewerLogsAsync prependMoreLogs
  cases hs : s.forward with
  | nil =>
    -- an empty table gets the page alone
    have hnear : ∀ p ∈ db.answer ⟨buildInfiniteScrollLogQuery (toISOString (firstTime s now))
        (findNewerUpperTimeBounds db.count (toISOString (firstTime s now))) db.filters, .ascending⟩,
        Near db (toISOString (firstTime s now)) p :=
      fun p hp => near_of_le hpage hp (hpage.mem p hp).1 (hpage.mem p hp).2.1 (le_refl _)
    have hempty : ReachesUp db.Satisfies LogPoint.time (toISOString (firstTime s now)) [] :=
      ⟨fun a ha => absurd ha List.not_mem_nil, fun _ _ _ a ha => absurd ha List.not_mem_nil⟩
    have hkeys := pairwise_of_nodup (List.nodup_reverse.mpr hpage.nodup) fun a ha b hb hms =>
      hdistinct a b (.inr (hnear a (List.mem_reverse.mp ha))) (.inr (hnear b (List.mem_reverse.mp hb))) hms
    simp only [hforward hs, List.append_nil, uniqBy_of_pairwise hkeys]
    have hstretch := (Page.reachesDown hpage).stretch_append hempty
      (fun p hp => by rw [List.append_nil, List.mem_reverse] at hp; exact (hpage.mem p hp).1)
      ⟨List.nodup_reverse.mpr hpage.nodup, List.nodup_nil⟩ ⟨List.pairwise_reverse.mpr hpage.ordered, .nil⟩
    rw [List.append_nil] at hstretch
    exact hstretch
  | cons n t =>
    have hfirst : firstTime s now = responseTime n.time := by
      unfold firstTime
      rw [hs]
      rfl
    have hhead : s.rows.head? = some n := by rw [head?_rows, hs]; rfl
    have hrows : Stretch db.Satisfies LogPoint.time (n :: t ++ s.backward) := hs ▸ h
    rw [hs] at hdistinct
    refine stretch_uniqBy hpage hrows (congrArg toISOString hfirst.symm) (hnewest n hhead) ?_ hdistinct
    rw [hfirst]
    exact lt_findNewerUpperTimeBounds db.count n.time

/-- In a run of safe scrolls, no row is lost or repeated. -/
theorem whole_of_safeRun (db : Database α) (selected : ℤ) (s : TableInfiniteData α) (scrolls : List Scroll)
    (h : SafeRun db (load db selected s) scrolls) : Whole db (scrolls.foldl (perform db) (load db selected s)) := by
  have hload := stretch_load db selected s
  generalize load db selected s = table at h hload
  induction scrolls generalizing table with
  | nil => exact hload
  | cons c cs ih =>
    obtain ⟨hsafe, hrest⟩ := h
    rw [List.foldl_cons]
    refine ih _ hrest ?_
    cases c with
    | loadMoreBelowRows now => exact stretch_fetchOlderLogsAsync hload hsafe
    | loadMoreAboveRows now => exact stretch_fetchNewerLogsAsync hload hsafe

/-! ### A database that sorts its points -/

def Clause.accepts (p : LogPoint α) : Clause α → Bool
  | lower time => time ≤ p.time
  | upper time => p.time < time
  | filter accepts => accepts p

theorem accepts_iff {c : Clause α} {p : LogPoint α} : c.accepts p = true ↔ c.Holds p := by
  cases c with
  | lower time => exact decide_eq_true_iff
  | upper time => exact decide_eq_true_iff
  | filter f => exact Iff.rfl

def sortedBy : Order → List (LogPoint α) → List (LogPoint α)
  | .ascending, ps => ps.insertionSort fun p q => p.time ≤ q.time
  | .descending, ps => ps.insertionSort fun p q => q.time ≤ p.time

/-- Answers are sorted from the points that the clauses accept. -/
def sortedAnswer (points : List (LogPoint α)) (q : Query α) : List (LogPoint α) :=
  (sortedBy q.order (points.filter fun p => q.clauses.all (·.accepts p))).take INITIAL_LIMIT

theorem page_sortedAnswer {points : List (LogPoint α)} (h : points.Nodup) (q : Query α) :
    Page (fun p => p ∈ points ∧ ∀ c ∈ q.clauses, c.Holds p) q.order.Rel INITIAL_LIMIT (sortedAnswer points q) := by
  have hmem : ∀ p, p ∈ points.filter (fun p => q.clauses.all (·.accepts p)) ↔ p ∈ points ∧ ∀ c ∈ q.clauses, c.Holds p := by
    intro p
    rw [List.mem_filter, List.all_eq_true]
    simp only [accepts_iff]
  obtain ⟨clauses, order⟩ := q
  unfold sortedAnswer
  cases order with
  | ascending =>
    have : Std.Total fun p q : LogPoint α => p.time ≤ q.time := ⟨fun p q => le_total p.time q.time⟩
    have : IsTrans (LogPoint α) fun p q => p.time ≤ q.time := ⟨fun _ _ _ => le_trans⟩
    exact page_take_insertionSort (r := fun p q : LogPoint α => p.time ≤ q.time) (h.filter _) hmem INITIAL_LIMIT
  | descending =>
    have : Std.Total fun p q : LogPoint α => q.time ≤ p.time := ⟨fun p q => le_total q.time p.time⟩
    have : IsTrans (LogPoint α) fun p q => q.time ≤ p.time := ⟨fun _ _ _ hqp hrq => le_trans hrq hqp⟩
    exact page_take_insertionSort (r := fun p q : LogPoint α => q.time ≤ p.time) (h.filter _) hmem INITIAL_LIMIT

def Database.ofPoints (points : List (LogPoint α)) (h : points.Nodup) : Database α where
  points := points
  filters := []
  count lower upper := (points.filter fun p => lower ≤ p.time ∧ p.time ≤ upper).length
  answer := sortedAnswer points
  nodup := h
  answered := page_sortedAnswer h

/-- Only the points that are there decide where a window ends. -/
theorem sortedAnswer_congr {points : List (LogPoint α)} {lower upper lower' upper' : ℤ}
    (h : ∀ p ∈ points, lower ≤ p.time ∧ p.time < upper ↔ lower' ≤ p.time ∧ p.time < upper') (order : Order) :
    sortedAnswer points ⟨buildInfiniteScrollLogQuery lower upper [], order⟩ =
      sortedAnswer points ⟨buildInfiniteScrollLogQuery lower' upper' [], order⟩ := by
  have hfilter : points.filter (fun p => (buildInfiniteScrollLogQuery lower upper []).all (·.accepts p)) =
      points.filter fun p => (buildInfiniteScrollLogQuery lower' upper' []).all (·.accepts p) := by
    refine List.filter_congr fun p hp => ?_
    rw [Bool.eq_iff_iff, List.all_eq_true, List.all_eq_true]
    simp only [accepts_iff, holds_buildInfiniteScrollLogQuery, List.not_mem_nil, false_implies, implies_true, and_true]
    exact h p hp
  unfold sortedAnswer
  simp only [hfilter]

section FiveSeconds

variable {points : List (LogPoint α)} (h : ∀ p ∈ points, 0 ≤ p.time ∧ p.time < 5000000000)

include h

/-- Of points within five seconds, the window for newer logs leaves out none. -/
theorem sortedAnswer_newer (count : ℤ → ℤ → ℕ) {start : ℤ} (hstart : 0 ≤ start) :
    sortedAnswer points ⟨buildInfiniteScrollLogQuery start (findNewerUpperTimeBounds count start) [], .ascending⟩ =
      sortedAnswer points ⟨buildInfiniteScrollLogQuery start 5000000000 [], .ascending⟩ := by
  have hupper := le_newerUpper count start (moment start + 1000 * 5) 5 (by decide)
  refine sortedAnswer_congr (fun p hp => ?_) .ascending
  have hp := h p hp
  unfold findNewerUpperTimeBounds
  unfold toISOString moment at *
  omega

theorem sortedAnswer_older (count : ℤ → ℤ → ℕ) {upper : ℤ} (hupper : upper ≤ 5000000000) :
    sortedAnswer points ⟨buildInfiniteScrollLogQuery (findOlderLowerTimeBounds count upper) upper [], .descending⟩ =
      sortedAnswer points ⟨buildInfiniteScrollLogQuery 0 upper [], .descending⟩ := by
  have hlower := olderLower_le count upper (moment upper - 1000 * 5) 5 (by decide)
  refine sortedAnswer_congr (fun p hp => ?_) .descending
  have hp := h p hp
  unfold findOlderLowerTimeBounds
  unfold toISOString moment at *
  omega

theorem load_ofPoints {hnodup : points.Nodup} {selected : ℤ} (hselected : 0 ≤ selected ∧ selected ≤ 5000000000)
    (s : TableInfiniteData α) : load (Database.ofPoints points hnodup) selected s =
      { s with
        forward := (sortedAnswer points ⟨buildInfiniteScrollLogQuery selected 5000000000 [], .ascending⟩).reverse
        backward := sortedAnswer points ⟨buildInfiniteScrollLogQuery 0 selected [], .descending⟩ } := by
  rw [← sortedAnswer_newer h (Database.ofPoints points hnodup).count hselected.1,
    ← sortedAnswer_older h (Database.ofPoints points hnodup).count hselected.2]
  rfl

theorem fetchNewerLogsAsync_ofPoints {hnodup : points.Nodup} {start : ℤ} (hstart : 0 ≤ start) (s : TableInfiniteData α) :
    fetchNewerLogsAsync (Database.ofPoints points hnodup) start s =
      prependMoreLogs s (sortedAnswer points ⟨buildInfiniteScrollLogQuery start 5000000000 [], .ascending⟩).reverse := by
  rw [← sortedAnswer_newer h (Database.ofPoints points hnodup).count hstart]
  rfl

end FiveSeconds

/-- Logs of a boot, one in each millisecond. -/
def boot : List (LogPoint String) := [⟨0, "reboot"⟩, ⟨2000000, "kernel"⟩]

theorem boot_nodup : boot.Nodup := by decide

theorem load_boot : load (Database.ofPoints boot boot_nodup) 1000000 ⟨[], [], none⟩ =
    ⟨[⟨2000000, "kernel"⟩], [⟨0, "reboot"⟩], none⟩ := by
  rw [load_ofPoints (by decide) (by decide)]
  decide +kernel

theorem whole_boot : Whole (Database.ofPoints boot boot_nodup)
    ([.loadMoreAboveRows 0].foldl (perform (Database.ofPoints boot boot_nodup))
      (load (Database.ofPoints boot boot_nodup) 1000000 ⟨[], [], none⟩)) := by
  refine whole_of_safeRun (Database.ofPoints boot boot_nodup) 1000000 ⟨[], [], none⟩ [.loadMoreAboveRows 0] ⟨?_, trivial⟩
  rw [load_boot]
  refine ⟨fun h => absurd h (by decide), fun n hn => ?_, fun p q hp hq hms => ?_⟩
  · obtain rfl := Option.some.inj hn
    decide
  · have hdistinct : ∀ p ∈ boot, ∀ q ∈ boot, responseTime p.time = responseTime q.time → p = q := by decide
    have hmem : ∀ p, p ∈ [(⟨2000000, "kernel"⟩ : LogPoint String)] ∨ Near (Database.ofPoints boot boot_nodup)
        (toISOString (firstTime ⟨[⟨2000000, "kernel"⟩], [⟨0, "reboot"⟩], none⟩ 0)) p → p ∈ boot := by
      rintro p (hp | hp)
      · exact List.mem_cons_of_mem _ hp
      · exact hp.1.1
    exact hdistinct p (hmem p hp) q (hmem q hq) hms

/-- Logs of which two are in one millisecond. -/
def burst : List (LogPoint String) := [⟨0, "login"⟩, ⟨1000000, "open"⟩, ⟨1500000, "close"⟩, ⟨2000000, "logout"⟩]

theorem burst_nodup : burst.Nodup := by decide

/-- Scrolling to the top drops one of the two. -/
theorem log_lost : ¬ Whole (Database.ofPoints burst burst_nodup)
    ([.loadMoreAboveRows 0].foldl (perform (Database.ofPoints burst burst_nodup))
      (load (Database.ofPoints burst burst_nodup) 500000 ⟨[], [], none⟩)) := by
  intro hwhole
  have hbounds : ∀ p ∈ burst, 0 ≤ p.time ∧ p.time < 5000000000 := by decide
  have hload : load (Database.ofPoints burst burst_nodup) 500000 ⟨[], [], none⟩ =
      ⟨[⟨2000000, "logout"⟩, ⟨1500000, "close"⟩, ⟨1000000, "open"⟩], [⟨0, "login"⟩], none⟩ := by
    rw [load_ofPoints hbounds (by decide)]
    decide +kernel
  have hscroll : perform (Database.ofPoints burst burst_nodup)
      ⟨[⟨2000000, "logout"⟩, ⟨1500000, "close"⟩, ⟨1000000, "open"⟩], [⟨0, "login"⟩], none⟩ (.loadMoreAboveRows 0) =
      ⟨[⟨2000000, "logout"⟩, ⟨1500000, "close"⟩], [⟨0, "login"⟩], some (-1)⟩ := by
    refine (fetchNewerLogsAsync_ofPoints hbounds (by decide) _).trans ?_
    decide +kernel
  rw [hload, List.foldl_cons, List.foldl_nil, hscroll] at hwhole
  have hsatisfies : (Database.ofPoints burst burst_nodup).Satisfies ⟨1000000, "open"⟩ :=
    ⟨by decide, fun f hf => absurd hf List.not_mem_nil⟩
  have hmem := hwhole.gapless ⟨1000000, "open"⟩ hsatisfies ⟨0, "login"⟩ (by decide) ⟨2000000, "logout"⟩ (by decide)
    (by decide) (by decide)
  exact absurd hmem (by decide)

end Logs
end Chronograf
