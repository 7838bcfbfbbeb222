/-
# The range of a query config and the time its query asks for

The walk for a time range keeps the last comparison with now that it meets,
whichever way round it is, and the tag logic takes every such comparison, and a
tag named `time` for a tag. When the range reported is what the condition says
of the time, and says nothing else of it, is decided for every tree.

Key definitions: `lowerBound`, `QueryConfig.RangeFaithful`, `RangeReadable`.
Key theorem: `range_faithful_iff`.
-/
import Chronograf.Influx.Durations
import Chronograf.Influx.TagLogic

namespace Chronograf
namespace Influx

open Influxql

/-! ### What a condition says of the time -/

mutual

def mentionsTime : Expr → Bool
  | .paren e => mentionsTime e
  | .binary _ lhs rhs => mentionsTime lhs || mentionsTime rhs
  | .call _ args => anyMentionsTime args
  | .varRef v _ | .distinct v => toLower v = "time"
  | _ => false

def anyMentionsTime : List Expr → Bool
  | [] => false
  | e :: es => mentionsTime e || anyMentionsTime es

end

/-- What has to hold all together. -/
def conjuncts : Expr → List Expr
  | .paren e => conjuncts e
  | .binary .and lhs rhs => conjuncts lhs ++ conjuncts rhs
  | e => [e]

/-- What a condition says of the time. -/
def timeCondition : Option Expr → List Expr
  | none => []
  | some c => (conjuncts c).filter mentionsTime

/-- A duration before now, or now. -/
def ago : Expr → Option ℤ
  | .paren e => ago e
  | .binary .sub lhs rhs => if isNow lhs then isDuration rhs else none
  | e => if isNow e then some 0 else none

/-- The time is later than a duration before now, whichever side it is on. -/
def lowerBound : Expr → Option ℤ
  | .paren e => lowerBound e
  | .binary .gt lhs rhs | .binary .gte lhs rhs => if isTime lhs then ago rhs else none
  | .binary .lt lhs rhs | .binary .lte lhs rhs => if isTime rhs then ago lhs else none
  | _ => none

/-- The condition says nothing of the time, or that it is later than a duration before now; and a range is the one from
this duration before now. -/
def QueryConfig.RangeFaithful (qc : QueryConfig) (condition : Option Expr) : Prop :=
  match timeCondition condition with
  | [] => qc.rangeLower = none
  | [e] => ∃ d, lowerBound e = some d ∧ ∀ lower ∈ qc.rangeLower, ∃ x, lower = "now() - " ++ x ∧ parseDuration x = some d
  | _ => False

/-! ### The conditions that a range can tell -/

/-- The parts of a condition that are neither AND nor OR. -/
def leaves : Expr → List Expr
  | .paren e => leaves e
  | .binary .and lhs rhs | .binary .or lhs rhs => leaves lhs ++ leaves rhs
  | e => [e]

def ranges (c : Expr) : List Expr := (leaves c).filter fun e => (isTimeRange e).isSome

/-- What is subtracted from is now. -/
def fromNow : Expr → Bool
  | .paren e => fromNow e
  | .binary _ lhs _ => isNow lhs
  | _ => true

/-- The time is on the greater side. -/
def isLower : Expr → Bool
  | .paren e => isLower e
  | .binary op lhs rhs =>
    if isTime lhs then (op = .gt || op = .gte) && fromNow rhs else (op = .lt || op = .lte) && fromNow lhs
  | _ => false

/-- No tag is named `time`; and there is no range, in the condition as it was written either, or one that does not stand
under an OR, is a lower bound, and is the one found last in the condition as it was written, with a duration that is
printable. The last two do not matter for a dashboard's time. -/
def RangeReadable (itsDashboardTime : Bool) (e c : Expr) : Prop :=
  (∀ a ∈ leaves c, ∀ f, isTagFilter a = .ok (some f) → toLower f.tag ≠ "time") ∧
    match ranges c with
    | [] => itsDashboardTime ∨ hasTimeRange e = none
    | [a] => a ∈ conjuncts c ∧ isLower a ∧ (itsDashboardTime ∨ ∀ d ∈ hasTimeRange e, isTimeRange a = some d ∧ Printable d)
    | _ => False

/-! ### Bounds -/

theorem isDuration_of_isNow {e : Expr} (h : isNow e) : isDuration e = none := by
  fun_induction isNow e with
  | case1 e ih => exact ih h
  | case2 name args => rfl
  | case3 => exact absurd h Bool.false_ne_true

theorem isTime_of_isPreviousTime {e : Expr} {d : ℤ} (h : isPreviousTime e = some d) : isTime e = false := by
  rw [Bool.eq_false_iff]
  intro htime
  rw [isPreviousTime_of_isTime htime] at h
  cases h

/-- How long ago a time is, unless now is what is subtracted. -/
theorem ago_eq_some {e : Expr} {d : ℤ} : ago e = some d ↔ isPreviousTime e = some d ∧ fromNow e := by
  fun_induction ago e with
  | case1 e ih => exact ih
  | case2 lhs rhs hnow =>
    have hcond : ((isNow lhs || isNow rhs) && decide (Operator.sub = .sub)) = true := by simp [hnow]
    rw [isPreviousTime, if_pos hcond, isDuration_of_isNow hnow, fromNow]
    simp [hnow]
  | case3 lhs rhs hnow => simp [fromNow, hnow]
  | case4 e hparen hsub hnow =>
    cases e with
    | paren e => exact absurd rfl (hparen e)
    | binary op lhs rhs => exact absurd hnow Bool.false_ne_true
    | _ => simp [isPreviousTime, fromNow, hnow]
  | case5 e hparen hsub hnow =>
    cases e with
    | paren e => exact absurd rfl (hparen e)
    | binary op lhs rhs =>
      have hop : op ≠ .sub := by
        rintro rfl
        exact hsub lhs rhs rfl
      simp [isPreviousTime, hop]
    | _ => simp [isPreviousTime, hnow]

/-- The range of a comparison, if it has the time on one side and another time on the other. -/
theorem isTimeRange_binary {op : Operator} {lhs rhs : Expr} {d : ℤ} : isTimeRange (.binary op lhs rhs) = some d ↔
    isOrdering op ∧ (isTime lhs ∧ isPreviousTime rhs = some d ∨ isTime lhs = false ∧ isTime rhs ∧ isPreviousTime lhs = some d) := by
  by_cases hop : isOrdering op
  · cases hlhs : isTime lhs with
    | true => simp [isTimeRange, hop, hlhs, isPreviousTime_of_isTime hlhs]
    | false =>
      cases hrhs : isTime rhs with
      | true => simp [isTimeRange, hop, hlhs, hrhs, isPreviousTime_of_isTime hrhs]
      | false => simp [isTimeRange, hlhs, hrhs]
  · simp [isTimeRange, hop]

/-- A lower bound is a range with the time on the greater side. -/
theorem lowerBound_eq_some {e : Expr} {d : ℤ} : lowerBound e = some d ↔ isTimeRange e = some d ∧ isLower e := by
  fun_induction lowerBound e with
  | case1 e ih => exact ih
  | case2 lhs rhs hlhs | case4 lhs rhs hlhs =>
    rw [isTimeRange_binary, isLower, if_pos hlhs, ago_eq_some]
    simp [isOrdering, hlhs]
  | case3 lhs rhs hlhs | case5 lhs rhs hlhs => simp [isLower, hlhs]
  | case6 lhs rhs hrhs | case8 lhs rhs hrhs =>
    rw [isTimeRange_binary, isLower, ago_eq_some]
    cases hlhs : isTime lhs with
    | true => simp [isPreviousTime_of_isTime hlhs, isPreviousTime_of_isTime hrhs]
    | false => simp [isOrdering, hrhs]
  | case7 lhs rhs hrhs | case9 lhs rhs hrhs =>
    rw [isTimeRange_binary, isLower]
    cases hlhs : isTime lhs with
    | true => simp
    | false => simp [hrhs]
  | case10 e hparen hgt hgte hlt hlte =>
    cases e with
    | paren e => exact absurd rfl (hparen e)
    | binary op lhs rhs =>
      have hop : isOrdering op = false := by
        cases op with
        | gt => exact absurd rfl (hgt lhs rhs)
        | gte => exact absurd rfl (hgte lhs rhs)
        | lt => exact absurd rfl (hlt lhs rhs)
        | lte => exact absurd rfl (hlte lhs rhs)
        | _ => rfl
      simp [isTimeRange_binary, hop]
    | _ => simp [isTimeRange]

/-! ### Conjuncts and leaves -/

theorem mentionsTime_of_isTime {e : Expr} (h : isTime e) : mentionsTime e := by
  fun_induction isTime e with
  | case1 e ih => exact ih h
  | case2 v type => exact h
  | case3 => exact absurd h Bool.false_ne_true

theorem mentionsTime_of_isTimeRange {e : Expr} (h : (isTimeRange e).isSome) : mentionsTime e := by
  fun_induction isTimeRange e with
  | case1 e ih => exact ih h
  | case2 op lhs rhs hrange =>
    rw [Bool.and_eq_true, Bool.or_eq_true] at hrange
    rw [mentionsTime, Bool.or_eq_true]
    exact hrange.1.imp mentionsTime_of_isTime mentionsTime_of_isTime
  | case3 | case4 => cases h

/-- A condition mentions the time if a leaf of it does. -/
theorem mentionsTime_eq_any (e : Expr) : mentionsTime e = (leaves e).any mentionsTime := by
  fun_induction leaves e with
  | case1 e ih => exact ih
  | case2 lhs rhs ihl ihr | case3 lhs rhs ihl ihr => rw [mentionsTime, List.any_append, ihl, ihr]
  | case4 e => rw [List.any_cons, List.any_nil, Bool.or_false]

theorem flatMap_leaves (c : Expr) : (conjuncts c).flatMap leaves = leaves c := by
  fun_induction conjuncts c with
  | case1 e ih => exact ih
  | case2 lhs rhs ihl ihr => rw [List.flatMap_append, ihl, ihr, leaves]
  | case3 e => exact List.flatMap_singleton leaves e

/-- No leaf is in parentheses or an AND or an OR. -/
theorem leaves_of_mem {e a : Expr} (h : a ∈ leaves e) : leaves a = [a] := by
  fun_induction leaves e with
  | case1 e ih => exact ih h
  | case2 lhs rhs ihl ihr | case3 lhs rhs ihl ihr => exact (List.mem_append.mp h).elim ihl ihr
  | case4 e hparen hand hor =>
    obtain rfl := List.mem_singleton.mp h
    rw [leaves.eq_def]
    split
    · exact absurd rfl (hparen _)
    · exact absurd rfl (hand _ _)
    · exact absurd rfl (hor _ _)
    · rfl

/-- A conjunct that is a range is a leaf. -/
theorem leaves_of_conjunct {c a : Expr} (h : a ∈ conjuncts c) (hrange : (isTimeRange a).isSome) : leaves a = [a] := by
  fun_induction conjuncts c with
  | case1 e ih => exact ih h
  | case2 lhs rhs ihl ihr => exact (List.mem_append.mp h).elim ihl ihr
  | case3 e hparen hand =>
    obtain rfl := List.mem_singleton.mp h
    rw [leaves.eq_def]
    split
    · exact absurd rfl (hparen _)
    · exact absurd rfl (hand _ _)
    · rw [isTimeRange] at hrange
      simp [isOrdering] at hrange
    · rfl

section Parts

variable {α : Type} {f : α → List α} {p : α → Bool} {a : α}

theorem filter_any_eq_nil {L : List α} : L.filter (fun x => (f x).any p) = [] ↔ (L.flatMap f).filter p = [] := by
  simp only [List.filter_eq_nil_iff, List.mem_flatMap, List.any_eq_true]
  constructor
  · rintro h y ⟨x, hx, hy⟩ hp
    exact h x hx ⟨y, hy, hp⟩
  · rintro h x hx ⟨y, hy, hp⟩
    exact h y ⟨x, hx, hy⟩ hp

/-- One of several lists has the only element that is looked for, and has nothing else. -/
theorem filter_any_eq_singleton (ha : f a = [a]) (hp : p a) : ∀ {L : List α},
    L.filter (fun x => (f x).any p) = [a] ↔ (L.flatMap f).filter p = [a] ∧ a ∈ L
  | [] => by simp
  | x :: L => by
    rw [List.flatMap_cons, List.filter_append, List.filter_cons]
    by_cases hx : (f x).any p
    · rw [if_pos hx, List.cons.injEq, filter_any_eq_nil]
      constructor
      · rintro ⟨rfl, hrest⟩
        rw [ha, hrest, List.append_nil, List.filter_singleton, hp]
        exact ⟨rfl, List.mem_cons_self⟩
      · rintro ⟨happend, hmem⟩
        obtain ⟨y, hy, hpy⟩ := List.any_eq_true.mp hx
        have hne : (f x).filter p ≠ [] := List.ne_nil_of_mem (List.mem_filter.mpr ⟨hy, hpy⟩)
        have hrest : (L.flatMap f).filter p = [] := by
          rcases List.append_eq_singleton_iff.mp happend with ⟨hnil, -⟩ | ⟨-, hnil⟩
          · exact absurd hnil hne
          · exact hnil
        refine ⟨?_, hrest⟩
        rcases List.mem_cons.mp hmem with rfl | hin
        · rfl
        · have hfound : a ∈ (L.flatMap f).filter p :=
            List.mem_filter.mpr ⟨List.mem_flatMap.mpr ⟨a, hin, ha ▸ List.mem_singleton_self a⟩, hp⟩
          rw [hrest] at hfound
          exact absurd hfound List.not_mem_nil
    · have hnil : (f x).filter p = [] := by
        rw [List.filter_eq_nil_iff]
        exact fun y hy hpy => hx (List.any_eq_true.mpr ⟨y, hy, hpy⟩)
      have hne : a ≠ x := by
        rintro rfl
        exact hx (by rw [ha]; simp [hp])
      rw [if_neg hx, hnil, List.nil_append, filter_any_eq_singleton ha hp, List.mem_cons, or_iff_right hne]

end Parts

/-! ### What the config reports -/

theorem leaves_comparison {op : Operator} (hop : op ≠ .and ∧ op ≠ .or) (lhs rhs : Expr) :
    leaves (.binary op lhs rhs) = [.binary op lhs rhs] := by
  cases op with
  | and => exact absurd rfl hop.1
  | or => exact absurd rfl hop.2
  | _ => rfl

theorem leaf_of_isTimeRange {e : Expr} (h : (isTimeRange e).isSome) : ∀ a ∈ leaves e, (isTimeRange a).isSome := by
  fun_induction isTimeRange e with
  | case1 e ih => exact ih h
  | case2 op lhs rhs hrange =>
    have hop : op ≠ .and ∧ op ≠ .or := by
      constructor <;> rintro rfl <;> simp [isOrdering] at hrange
    intro a ha
    rw [leaves_comparison hop] at ha
    rw [List.mem_singleton.mp ha, isTimeRange, if_pos hrange]
    exact h
  | case3 | case4 => cases h

theorem leaf_of_isTagFilter {e : Expr} {f : TagFilter} (h : isTagFilter e = .ok (some f)) :
    ∀ a ∈ leaves e, isTagFilter a = .ok (some f) := by
  cases e with
  | paren e => exact leaf_of_isTagFilter (e := e) h
  | binary op lhs rhs =>
    have hop : op ≠ .and ∧ op ≠ .or := by
      constructor <;> rintro rfl <;> simp [isTagFilter, filterOp] at h
    intro a ha
    rw [leaves_comparison hop] at ha
    rw [List.mem_singleton.mp ha]
    exact h
  | _ => cases h

/-- Every leaf of tag logic is a range or a filter. -/
theorem TagLogic.leaf {e : Expr} {fs : List TagFilter} (h : TagLogic e fs) :
    ∀ a ∈ leaves e, (isTimeRange a).isSome ∨ ∃ f, isTagFilter a = .ok (some f) := by
  induction h with
  | paren inner ih => exact ih
  | range range => exact fun a ha => .inl (leaf_of_isTimeRange range a ha)
  | filter filter => exact fun a ha => .inr ⟨_, leaf_of_isTagFilter filter a ha⟩
  | @binary op lhs rhs fs gs hop left right ihl ihr =>
    have hleaves : leaves (.binary op lhs rhs) = leaves lhs ++ leaves rhs := by
      by_cases hand : op = .and
      · rw [hand, leaves]
      · have hor : op = .or := by
          by_contra hor
          exact hop ⟨hand, hor⟩
        rw [hor, leaves]
    rw [hleaves]
    exact fun a ha => (List.mem_append.mp ha).elim (ihl a) (ihr a)

/-- A filter is about the time if its tag has this name. -/
theorem mentionsTime_of_isTagFilter {e : Expr} {f : TagFilter} (h : isTagFilter e = .ok (some f)) :
    mentionsTime e = decide (toLower f.tag = "time") := by
  fun_induction isTagFilter e with
  | case1 e ih => exact ih h
  | case4 operator op hop t type v htag hboth | case6 operator op hop t type v htag hboth =>
    cases h
    simp [mentionsTime]
  | _ => cases h

section Reported

variable {reduce : Expr → Expr} {dashboard : Bool} {base qc : QueryConfig} {e : Expr}

theorem withCondition_range (hbase : base.rangeLower = none) (h : withCondition reduce dashboard base (some e) = .ok (some qc)) :
    (∃ fs, isTagLogic (reduce e) = .ok (some fs)) ∧
      qc.rangeLower = if dashboard then none else (hasTimeRange e).map fun d => "now() - " ++ shortDur d := by
  obtain ⟨r, hlogic, h⟩ := bind_ok h
  cases r with
  | none => cases h
  | some fs =>
    obtain ⟨filtered, hfiltered, hqc⟩ := Option.map_eq_some_iff.mp (Except.ok.inj h)
    have hkept : filtered.rangeLower = none := by
      unfold withFilters at hfiltered
      split_ifs at hfiltered
      cases hfiltered
      exact hbase
    refine ⟨⟨fs, hlogic⟩, ?_⟩
    subst hqc
    cases hasTimeRange e with
    | none => cases dashboard <;> exact hkept
    | some d =>
      cases dashboard with
      | true => exact hkept
      | false => rfl

end Reported

/-- Where no tag is named `time`, the leaves that mention it are the ranges. -/
theorem ranges_eq {c : Expr} {fs : List TagFilter} (hlogic : TagLogic c fs)
    (htags : ∀ a ∈ leaves c, ∀ f, isTagFilter a = .ok (some f) → toLower f.tag ≠ "time") :
    (leaves c).filter mentionsTime = ranges c := by
  refine List.filter_congr fun a ha => ?_
  rcases hlogic.leaf a ha with hrange | ⟨f, hf⟩
  · rw [mentionsTime_of_isTimeRange hrange, hrange]
  · rw [mentionsTime_of_isTagFilter hf, isTimeRange_of_isTagFilter hf]
    exact decide_eq_false (htags a ha f hf)

/-- Where each leaf that mentions the time is a range, no tag has this name. -/
theorem tags_of_ranges {c : Expr} (h : ∀ a ∈ (leaves c).filter mentionsTime, (isTimeRange a).isSome) :
    ∀ a ∈ leaves c, ∀ f, isTagFilter a = .ok (some f) → toLower f.tag ≠ "time" := by
  intro a ha f hf htime
  have hmentions : mentionsTime a := by
    rw [mentionsTime_of_isTagFilter hf]
    exact decide_eq_true htime
  have hrange := h a (List.mem_filter.mpr ⟨ha, hmentions⟩)
  rw [isTimeRange_of_isTagFilter hf] at hrange
  cases hrange

theorem timeCondition_eq (c : Expr) :
    timeCondition (some c) = (conjuncts c).filter fun e => (leaves e).any mentionsTime :=
  List.filter_congr fun e _ => mentionsTime_eq_any e

theorem timeCondition_eq_nil {c : Expr} : timeCondition (some c) = [] ↔ (leaves c).filter mentionsTime = [] := by
  rw [timeCondition_eq, filter_any_eq_nil, flatMap_leaves]

/-- A range is all that a condition says of the time if it is the only leaf that does, and under no OR. -/
theorem timeCondition_eq_singleton {c a : Expr} (ha : (isTimeRange a).isSome) :
    timeCondition (some c) = [a] ↔ (leaves c).filter mentionsTime = [a] ∧ a ∈ conjuncts c := by
  have hmentions := mentionsTime_of_isTimeRange ha
  constructor
  · intro h
    have hmem : a ∈ conjuncts c := (List.mem_filter.mp (h ▸ List.mem_singleton_self a : a ∈ timeCondition (some c))).1
    rw [timeCondition_eq, filter_any_eq_singleton (leaves_of_conjunct hmem ha) hmentions, flatMap_leaves] at h
    exact h
  · rintro ⟨h, hmem⟩
    rw [timeCondition_eq, filter_any_eq_singleton (leaves_of_conjunct hmem ha) hmentions, flatMap_leaves]
    exact ⟨h, hmem⟩

/-- What is reported is the duration. -/
theorem reported_iff {found : Option ℤ} {dashboard : Bool} {d : ℤ} (hbits : ∀ d ∈ found, -2 ^ 63 ≤ d ∧ d < 2 ^ 63) :
    (∀ lower ∈ if dashboard then none else found.map fun d => "now() - " ++ shortDur d,
        ∃ x, lower = "now() - " ++ x ∧ parseDuration x = some d) ↔
      dashboard ∨ ∀ d' ∈ found, d = d' ∧ Printable d' := by
  cases dashboard with
  | true => exact iff_of_true (fun lower hlower => nomatch hlower) (.inl rfl)
  | false =>
    rw [or_iff_right Bool.false_ne_true]
    cases found with
    | none => exact iff_of_true (fun lower hlower => nomatch hlower) fun d' hd' => nomatch hd'
    | some d' =>
      obtain ⟨hl, hu⟩ := hbits d' rfl
      have hparse : parseDuration (shortDur d') = some d ↔ d = d' ∧ Printable d' := by
        rw [parseDuration_shortDur hl hu]
        split_ifs with hprintable
        · rw [Option.some.injEq, eq_comm, and_iff_left hprintable]
        · simp [hprintable]
      constructor
      · rintro h _ ⟨⟩
        obtain ⟨x, hx, hd⟩ := h _ rfl
        rw [← String.toList_inj, String.toList_append, String.toList_append] at hx
        rw [← String.toList_inj.mp (List.append_cancel_left hx)] at hd
        exact hparse.mp hd
      · rintro h _ ⟨⟩
        exact ⟨_, rfl, hparse.mpr (h d' rfl)⟩

/-- The range of a config is what the condition says of the time, if and only if the condition is one that a range can
tell. -/
theorem range_faithful_iff {parse : String → Option (List Statement)} {reduce : Expr → Expr} {influxQL : String}
    {qc : QueryConfig} (h : convert parse reduce influxQL = .ok qc) (hraw : qc.rawText = none)
    (hbits : ∀ e ∈ condition parse influxQL, ∀ d ∈ hasTimeRange e, -2 ^ 63 ≤ d ∧ d < 2 ^ 63) :
    qc.RangeFaithful ((condition parse influxQL).map reduce) ↔
      ∀ e ∈ condition parse influxQL, RangeReadable (itsDashboardTime influxQL) e (reduce e) := by
  obtain ⟨base, -, hbase, hwith⟩ := convert_ok h hraw
  cases hcond : condition parse influxQL with
  | none =>
    rw [hcond] at hwith
    cases hwith
    exact iff_of_true hbase fun e he => nomatch he
  | some e =>
    rw [hcond] at hwith
    obtain ⟨⟨fs, hfs⟩, hlower⟩ := withCondition_range hbase hwith
    have hlogic := tagLogic_of_isTagLogic hfs
    have hnone : qc.rangeLower = none ↔ itsDashboardTime influxQL ∨ hasTimeRange e = none := by
      rw [hlower]
      cases itsDashboardTime influxQL <;> simp
    rw [Option.map_some, QueryConfig.RangeFaithful, show (∀ x ∈ some e, RangeReadable (itsDashboardTime influxQL) x (reduce x)) ↔
      RangeReadable (itsDashboardTime influxQL) e (reduce e) by simp]
    constructor
    · intro hfaithful
      split at hfaithful
      · next hnil =>
        have hmentions := timeCondition_eq_nil.mp hnil
        have htags := tags_of_ranges (c := reduce e) fun a ha => absurd (hmentions ▸ ha) List.not_mem_nil
        refine ⟨htags, ?_⟩
        rw [← ranges_eq hlogic htags, hmentions]
        exact hnone.mp hfaithful
      · next a hone =>
        obtain ⟨d, hd, hreported⟩ := hfaithful
        obtain ⟨hrange, hlow⟩ := lowerBound_eq_some.mp hd
        have hsome : (isTimeRange a).isSome := Option.isSome_of_eq_some hrange
        obtain ⟨hmentions, hmem⟩ := (timeCondition_eq_singleton hsome).mp hone
        have htags := tags_of_ranges (c := reduce e) fun x hx => by
          rw [hmentions] at hx
          rwa [List.mem_singleton.mp hx]
        refine ⟨htags, ?_⟩
        rw [← ranges_eq hlogic htags, hmentions]
        rw [hlower, reported_iff (hbits e hcond)] at hreported
        refine ⟨hmem, hlow, hreported.imp id fun hall d' hd' => ?_⟩
        obtain ⟨rfl, hprintable⟩ := hall d' hd'
        exact ⟨hrange, hprintable⟩
      · exact hfaithful.elim
    · rintro ⟨htags, hreadable⟩
      rw [← ranges_eq hlogic htags] at hreadable
      split at hreadable
      · next hnil =>
        rw [timeCondition_eq_nil.mpr hnil]
        exact hnone.mpr hreadable
      · next a hone =>
        obtain ⟨hmem, hlow, hreported⟩ := hreadable
        have hin : a ∈ (leaves (reduce e)).filter mentionsTime := hone ▸ List.mem_singleton_self a
        rw [ranges_eq hlogic htags] at hin
        have hsome := (List.mem_filter.mp hin).2
        obtain ⟨d, hd⟩ := Option.isSome_iff_exists.mp hsome
        rw [(timeCondition_eq_singleton hsome).mpr ⟨hone, hmem⟩]
        refine ⟨d, lowerBound_eq_some.mpr ⟨hd, hlow⟩, ?_⟩
        rw [hlower, reported_iff (hbits e hcond)]
        refine hreported.imp id fun hall d' hd' => ?_
        obtain ⟨hrange, hprintable⟩ := hall d' hd'
        exact ⟨Option.some.inj (hd.symm.trans hrange), hprintable⟩
      · exact hreadable.elim

def now : Expr := .call "now" []

/-- `time > now() - 1h` and a host. -/
def hostSinceHour : Expr :=
  .binary .and (.binary .gt (.varRef "time" .unknown) (.binary .sub now (.duration hour))) (hostIs "a")

/-- The range of a query since an hour ago is reported. -/
theorem range_faithful_hour :
    ∃ qc, convert (fun _ => some [.select (usageWhere hostSinceHour) none]) id
        "SELECT usage FROM cpu WHERE time > now() - 1h AND host = 'a'" = .ok qc ∧
      qc.rangeLower = some "now() - 1h" ∧ qc.RangeFaithful (some hostSinceHour) := by
  have hconvert : ∃ qc, convert (fun _ => some [.select (usageWhere hostSinceHour) none]) id
      "SELECT usage FROM cpu WHERE time > now() - 1h AND host = 'a'" = .ok qc ∧ qc.rawText = none ∧
      qc.rangeLower = some "now() - 1h" := ⟨_, rfl, rfl, by decide +kernel⟩
  obtain ⟨qc, hqc, hraw, hlower⟩ := hconvert
  refine ⟨qc, hqc, hlower, (range_faithful_iff hqc hraw ?_).mpr ?_⟩
  · rintro e ⟨⟩ d ⟨⟩
    decide
  · rintro e ⟨⟩
    refine ⟨fun a ha f hf => ?_, by simp [hostSinceHour, conjuncts], rfl, .inr ?_⟩
    · rcases List.mem_cons.mp ha with rfl | ha
      · cases hf
      · obtain rfl := List.mem_singleton.mp ha
        cases hf
        decide
    · rintro d ⟨⟩
      exact ⟨rfl, by decide⟩

/-- `time < now() - 1h`. -/
def untilHour : Expr := .binary .lt (.varRef "time" .unknown) (.binary .sub now (.duration hour))

/-- A query of what is older than an hour is reported as one of the last hour. -/
theorem upper_bound_reported :
    ∃ qc, convert (fun _ => some [.select (usageWhere untilHour) none]) id "SELECT usage FROM cpu WHERE time < now() - 1h" =
        .ok qc ∧ qc.rawText = none ∧ qc.rangeLower = some "now() - 1h" ∧ ¬ qc.RangeFaithful (some untilHour) := by
  refine ⟨_, rfl, rfl, by decide +kernel, ?_⟩
  rintro ⟨d, hd, -⟩
  cases hd

end Influx
end Chronograf
