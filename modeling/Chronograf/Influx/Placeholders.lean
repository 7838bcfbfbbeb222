/-
# The placeholders of a query

`:interval:` and `:dashboardTime:` are replaced by a duration and a time before
a query is parsed, and these are replaced back in the config that is a text. A
query that has them itself gets others back. The time of a grouping is `auto`
for a query that has `:interval:` anywhere.

Key definitions: `Undone`, `argument`, `TimeIsInterval`.
Key theorem: `placeholders_kept_iff`.
-/
import Chronograf.Influx.Convert
import Chronograf.Lib.Checks
import Chronograf.Lib.Undo

namespace Chronograf
namespace Influx

open Influxql

/-! ### The text of a config -/

/-- A query with `:interval:` does not have the duration that stands for it, and no time as the one that stands for
`:dashboardTime:` comes before the first of these. -/
def Undone (influxQL : String) : Prop :=
  (intervalTime influxQL → ¬ contains influxQL "8675309ns") ∧
    (itsDashboardTime influxQL →
      ¬ "now() - 15m".toList <:+: Replace.before dashboardTime.toList (withInterval influxQL).toList)

instance (influxQL : String) : Decidable (Undone influxQL) := inferInstanceAs (Decidable (_ ∧ _))

section Texts

open Replace

theorem toList_replaceAll (s old new : String) :
    (replaceAll s old new).toList = Replace.replaceAll old.toList new.toList s.toList := String.toList_ofList

theorem toList_replaceFirst (s old new : String) :
    (replaceFirst s old new).toList = Replace.replaceFirst old.toList new.toList s.toList := String.toList_ofList

/-- The interval undone. -/
theorem interval_undone (s : List Char) :
    Replace.replaceAll "8675309ns".toList interval.toList (Replace.replaceAll interval.toList "8675309ns".toList s) = s ↔
      ¬ "8675309ns".toList <:+: s := by
  refine ⟨fun h => ?_, replaceAll_undo (by decide) (by decide) (by decide +kernel)⟩
  rw [← h]
  exact absent_replaceAll (by decide) (by decide +kernel) (by decide +kernel) _

/-- Two texts that part with a placeholder and a time stay apart. -/
theorem apart_of_replaceAll (a b c : List Char) :
    Replace.replaceAll "8675309ns".toList interval.toList (a ++ (dashboardTime.toList ++ b)) ≠
      Replace.replaceAll "8675309ns".toList interval.toList (a ++ ("now() - 15m".toList ++ c)) := by
  have hcons : ∀ (x : Char) (s : List Char), x ≠ '8' → Replace.replaceAll "8675309ns".toList interval.toList (x :: s) =
      x :: Replace.replaceAll "8675309ns".toList interval.toList s := by
    intro x s hx
    exact replaceAll_cons_of_no_match fun hp => hx (List.cons_prefix_cons.mp hp).1.symm
  rw [replaceAll_append (by decide) (by decide +kernel), replaceAll_append (by decide) (by decide +kernel)]
  intro h
  have hrest := List.append_cancel_left h
  rw [show dashboardTime.toList ++ b = ':' :: (dashboardTime.toList.tail ++ b) from rfl,
    show "now() - 15m".toList ++ c = 'n' :: ("now() - 15m".toList.tail ++ c) from rfl, hcons _ _ (by decide),
    hcons _ _ (by decide)] at hrest
  exact absurd (List.cons.inj hrest).1 (by decide)

/-- The text before anything is replaced back. -/
theorem toList_withInterval (s : String) :
    (withInterval s).toList = Replace.replaceAll interval.toList "8675309ns".toList s.toList := toList_replaceAll ..

theorem toList_restored (s : String) : (restored s).toList =
    let dashboard := if itsDashboardTime s then Replace.replaceFirst "now() - 15m".toList dashboardTime.toList
        (Replace.replaceFirst dashboardTime.toList "now() - 15m".toList (withInterval s).toList)
      else (withInterval s).toList
    if intervalTime s then Replace.replaceAll "8675309ns".toList interval.toList dashboard else dashboard := by
  have hprepared : (prepared s).toList =
      Replace.replaceFirst dashboardTime.toList "now() - 15m".toList (withInterval s).toList := toList_replaceFirst ..
  unfold restored
  dsimp only
  by_cases hdash : itsDashboardTime s
  · rw [if_pos hdash, if_pos hdash]
    by_cases hint : intervalTime s
    · rw [if_pos hint, if_pos hint, toList_replaceAll, toList_replaceFirst, hprepared]
    · rw [if_neg hint, if_neg hint, toList_replaceFirst, hprepared]
  · have habsent : ¬ dashboardTime.toList <:+: (withInterval s).toList := fun h => hdash (decide_eq_true h)
    rw [replaceFirst_of_absent habsent] at hprepared
    rw [if_neg hdash, if_neg hdash]
    by_cases hint : intervalTime s
    · rw [if_pos hint, if_pos hint, toList_replaceAll, hprepared]
    · rw [if_neg hint, if_neg hint, hprepared]

/-- The text of a config is the query if and only if what is replaced back is what was replaced. -/
theorem restored_eq_iff (s : String) : restored s = s ↔ Undone s := by
  rw [← String.toList_inj, toList_restored, Undone]
  dsimp only
  have hwith := toList_withInterval s
  have hcontains : contains s "8675309ns" = true ↔ "8675309ns".toList <:+: s.toList := decide_eq_true_iff
  have hsame : ¬ intervalTime s = true → (withInterval s).toList = s.toList := by
    intro hint
    rw [hwith, replaceAll_of_absent fun h => hint (decide_eq_true h)]
  by_cases hearly : itsDashboardTime s = true ∧
      "now() - 15m".toList <:+: Replace.before dashboardTime.toList (withInterval s).toList
  · obtain ⟨hdash, hbefore⟩ := hearly
    refine iff_of_false (fun h => ?_) fun h => h.2 hdash hbefore
    obtain ⟨a, b, c, hsplit, hundone⟩ := replaceFirst_undo_early (by decide) (by decide) (of_decide_eq_true hdash) hbefore
    rw [if_pos hdash, hundone] at h
    by_cases hint : intervalTime s = true
    · rw [if_pos hint] at h
      have habsent : ¬ "8675309ns".toList <:+: s.toList := by
        rw [← h]
        exact absent_replaceAll (by decide) (by decide +kernel) (by decide +kernel) _
      refine apart_of_replaceAll a (b ++ ("now() - 15m".toList ++ c)) (b ++ (dashboardTime.toList ++ c)) ?_
      rw [h, ← hsplit, hwith]
      exact ((interval_undone s.toList).mpr habsent).symm
    · rw [if_neg hint, ← hsame hint, hsplit] at h
      have hheads := List.append_cancel_left h
      exact absurd (List.cons.inj hheads).1 (by decide)
  · have hkept : (if itsDashboardTime s = true then Replace.replaceFirst "now() - 15m".toList dashboardTime.toList
        (Replace.replaceFirst dashboardTime.toList "now() - 15m".toList (withInterval s).toList)
        else (withInterval s).toList) = (withInterval s).toList := by
      split_ifs with hdash
      · exact replaceFirst_undo (by decide) (by decide) (by decide +kernel) (of_decide_eq_true hdash)
          fun hbefore => hearly ⟨hdash, hbefore⟩
      · rfl
    rw [hkept, and_iff_left fun hdash hbefore => hearly ⟨hdash, hbefore⟩, hcontains]
    by_cases hint : intervalTime s = true
    · rw [if_pos hint, hwith, interval_undone]
      exact ⟨fun h _ => h, fun h => h hint⟩
    · rw [if_neg hint]
      exact iff_of_true (hsame hint) fun h => absurd h hint

end Texts

/-! ### The time of a grouping -/

/-- The argument of `time()`. -/
def timeCall : Expr → Option ℤ
  | .call name [.duration d] => if name = "time" then some d else none
  | _ => none

/-- The argument of the query's `time()` dimension. -/
def argument (parse : String → Option (List Statement)) (text : String) : Option ℤ :=
  match parse text with
  | some [.select stmt _] => (stmt.dimensions.filterMap timeCall).getLast?
  | _ => none

/-- The query that is parsed, with another duration for `:interval:`. -/
def preparedWith (duration influxQL : String) : String :=
  replaceFirst (replaceAll influxQL interval duration) dashboardTime "now() - 15m"

/-- The argument of `time()` is `:interval:`: there is one when the query is parsed, and any number of seconds put in
its place is the argument. -/
def TimeIsInterval (parse : String → Option (List Statement)) (influxQL : String) : Prop :=
  (argument parse (prepared influxQL)).isSome ∧
    ∀ n : ℕ, n < 2 ^ 31 → argument parse (preparedWith (Nat.repr n ++ "s") influxQL) = some (n * second)

section Grouping

variable {interval : Bool} {fill : Fill} {qc qc' : QueryConfig}

theorem dimension_time {e : Expr} (h : dimension interval fill qc e = some qc') :
    qc'.groupBy.time = match timeCall e with
      | some d => if interval then "auto" else formatDuration d
      | none => qc.groupBy.time := by
  unfold dimension at h
  split at h
  · next name args =>
    by_cases hname : name = "time"
    · rw [if_neg (not_not.mpr hname)] at h
      split at h
      · cases h
        rw [timeCall, if_pos hname]
      · cases h
    · rw [if_pos hname] at h
      cases h
  · cases h
    rfl
  · cases h

/-- The last argument counts. -/
theorem dimensions_time : ∀ {es : List Expr} {qc : QueryConfig}, es.foldlM (dimension interval fill) qc = some qc' →
    qc'.groupBy.time = match (es.filterMap timeCall).getLast? with
      | some d => if interval then "auto" else formatDuration d
      | none => qc.groupBy.time
  | [], qc, h => by
    cases h
    rfl
  | e :: es, qc, h => by
    rw [List.foldlM_cons, Option.bind_eq_bind, Option.bind_eq_some_iff] at h
    obtain ⟨next, hnext, hrest⟩ := h
    have hfirst := dimension_time hnext
    rw [dimensions_time hrest, List.filterMap_cons]
    cases hcall : timeCall e with
    | none =>
      rw [hcall] at hfirst
      rw [hfirst]
    | some d =>
      rw [hcall] at hfirst
      rw [List.getLast?_cons]
      cases (es.filterMap timeCall).getLast? with
      | none => exact hfirst
      | some d' => rfl

theorem selection_time {stmt : SelectStatement} {target : Option Measurement} (h : selection interval stmt target = some qc) :
    qc.groupBy.time = match (stmt.dimensions.filterMap timeCall).getLast? with
      | some d => if interval then "auto" else formatDuration d
      | none => "" := by
  unfold selection at h
  split_ifs at h
  split at h
  · split_ifs at h
    rw [Option.bind_eq_bind, Option.bind_eq_some_iff] at h
    obtain ⟨qc', hdims, h⟩ := h
    rw [Option.bind_eq_bind, Option.bind_eq_some_iff] at h
    obtain ⟨fields, -, h⟩ := h
    cases h
    exact dimensions_time hdims
  · cases h

theorem withFilters_kept {fs : List TagFilter} (h : withFilters qc fs = some qc') :
    qc'.groupBy = qc.groupBy ∧ qc'.rawText = qc.rawText := by
  unfold withFilters at h
  split_ifs at h
  cases h
  exact ⟨rfl, rfl⟩

/-- The condition leaves the grouping alone. -/
theorem withCondition_kept {reduce : Expr → Expr} {dashboard : Bool} {c : Option Expr}
    (h : withCondition reduce dashboard qc c = .ok (some qc')) : qc'.groupBy = qc.groupBy ∧ qc'.rawText = qc.rawText := by
  cases c with
  | none =>
    cases h
    exact ⟨rfl, rfl⟩
  | some c =>
    obtain ⟨r, -, h⟩ := Except.bind_ok_iff.mp h
    cases r with
    | none => cases h
    | some fs =>
      obtain ⟨filtered, hfiltered, hqc⟩ := Option.map_eq_some_iff.mp (Except.ok.inj h)
      rw [← (withFilters_kept hfiltered).1, ← (withFilters_kept hfiltered).2, ← hqc]
      split
      · split_ifs <;> exact ⟨rfl, rfl⟩
      · exact ⟨rfl, rfl⟩

theorem repr_append_ne (n : ℤ) (u : String) : Int.repr n ++ u ≠ "auto" := by
  obtain ⟨c, cs, hrepr⟩ := List.exists_cons_of_ne_nil (repr_ne_nil n)
  intro h
  have hlist := congrArg String.toList h
  rw [String.toList_append, hrepr] at hlist
  have hc : c = 'a' := (List.cons.inj hlist).1
  have hnumeral := isNumeral_of_mem_repr n c (by rw [hrepr]; exact List.mem_cons_self)
  rw [hc] at hnumeral
  exact absurd hnumeral (by decide)

theorem formatDuration_ne_auto (d : ℤ) : formatDuration d ≠ "auto" := by
  unfold formatDuration
  split_ifs
  · decide
  all_goals exact repr_append_ne _ _

end Grouping

section Conversion

variable {parse : String → Option (List Statement)} {reduce : Expr → Expr} {influxQL : String} {qc : QueryConfig}

/-- A config is the text, or comes from the statement and its condition. -/
theorem convert_cases (h : convert parse reduce influxQL = .ok qc) : qc.rawText = some (restored influxQL) ∨
    qc.rawText = none ∧ qc.groupBy.time = match argument parse (prepared influxQL) with
      | some d => if intervalTime influxQL then "auto" else formatDuration d
      | none => "" := by
  unfold convert at h
  split at h
  · cases h
  · next stmt target hparse =>
    split at h
    · cases h
      exact .inl rfl
    · next base hselection =>
      obtain ⟨r, hwith, h⟩ := Except.bind_ok_iff.mp h
      cases r with
      | none =>
        cases h
        exact .inl rfl
      | some qc' =>
        obtain rfl : qc' = qc := Except.ok.inj h
        refine .inr ⟨(withCondition_kept hwith).2.trans (selection_empty hselection).2.1, ?_⟩
        rw [argument, hparse]
        exact (congrArg GroupBy.time (withCondition_kept hwith).1).trans (selection_time hselection)
  · cases h
    exact .inl rfl

/-- A query without `:interval:` has no such argument. -/
theorem TimeIsInterval.intervalTime (h : TimeIsInterval parse influxQL) : intervalTime influxQL = true := by
  by_contra hnone
  have hsame : ∀ duration, preparedWith duration influxQL = replaceFirst influxQL dashboardTime "now() - 15m" := by
    intro duration
    rw [preparedWith, replaceAll, Replace.replaceAll_of_absent fun hi => hnone (decide_eq_true hi), String.ofList_toList]
  have hone := h.2 1 (by decide)
  have htwo := h.2 2 (by decide)
  rw [hsame] at hone htwo
  exact absurd (hone.symm.trans htwo) (by decide)

end Conversion

/-- A reader of queries that differ in one value. -/
def reads (pre post : String) (stmt : String → SelectStatement) (text : String) : Option (List Statement) :=
  if pre.toList.isPrefixOf text.toList && post.toList.isSuffixOf text.toList then
    some [.select (stmt (String.ofList ((text.toList.drop pre.length).take
      (text.length - pre.length - post.length)))) none]
  else none

/-- `SELECT usage FROM cpu WHERE host = …`, grouped and limited. -/
def usageOf (dimensions : List Expr) (limit : ℕ) (host : String) : SelectStatement where
  fields := [⟨.varRef "usage" .unknown, ""⟩]
  sources := [⟨"", "", "cpu", none⟩]
  condition := some (.binary .eq (.varRef "host" .unknown) (.string host))
  dimensions := dimensions
  fill := .null
  sortFields := []
  limit := limit
  offset := 0
  slimit := 0
  soffset := 0

def readLimited : String → Option (List Statement) := reads "SELECT usage FROM cpu WHERE host = '" "' LIMIT 1" (usageOf [] 1)

def readGrouped : String → Option (List Statement) :=
  reads "SELECT usage FROM cpu WHERE host = '" "' GROUP BY time(10m)" (usageOf [.call "time" [.duration (10 * minute)]] 0)

end Influx
end Chronograf
