/-
# Results of the annotation queries

`influxResults.Annotations`: the rows of a reply as annotations. Of the rows
with one ID the one with the greatest modification time is kept, in a map that
is then ranged over in any order, and what it holds is sorted. The comparison
of the sort takes an annotation with the smaller ID for the lesser one even if
it starts later, so two annotations can each be less than the other, and the
order is that of neither start times nor the map.

Key definitions: `Value`, `Series`, `decode`, `annotations`, `OneOrder`.
Key theorem: `one_order_iff`.
-/
import Chronograf.Influx.Annotations
import Chronograf.Lib.Checks
import Chronograf.Lib.SliceSort
import Mathlib

namespace Chronograf
namespace Annotations

/-! ### The reply -/

/-- A value of a row; a number is kept as its text. -/
inductive Value
  | number (text : String)
  | string (s : String)
  | null
  | bool (b : Bool)
  | array
  | object

structure Series where
  columns : List String
  values : List (List Value)

/-- The series of each result. -/
abbrev InfluxResults := List (List Series)

inductive RowError
  | missingColumn (name : String)
  | missingIndex (idx : ℕ)
  | notInt64 (idx : ℕ)
  | notString (idx : ℕ)
  | syntaxOrRange (text : String)
  | panic
  deriving DecidableEq

def isInt64 (i : ℤ) : Bool := -2 ^ 63 ≤ i ∧ i < 2 ^ 63

/-- `value.Int64`. -/
def int64 (v : List Value) (idx : ℕ) : Except RowError ℤ :=
  match v[idx]? with
  | none => .error (.missingIndex idx)
  | some (.number text) =>
    match (Marshal.integer text).filter isInt64 with
    | some i => .ok i
    | none => .error (.syntaxOrRange text)
  | some _ => .error (.notInt64 idx)

/-- `value.String`. -/
def string (v : List Value) (idx : ℕ) : Except RowError String :=
  match v[idx]? with
  | none => .error (.missingIndex idx)
  | some (.string s) => .ok s
  | some _ => .error (.notString idx)

/-- Of two columns with one name the last one. -/
def indexOf (columns : List String) (k : String) : Except RowError ℕ :=
  match columns.zipIdx.reverse.lookup k with
  | some i => .ok i
  | none => .error (.missingColumn k)

/-- The column as a tag: names that are reserved and values that are not strings are left out. -/
def tagOf (column : String × Value) : Option {m : String × String // validateAnnotationTagKey m.1} :=
  match column.2 with
  | .string s => if h : validateAnnotationTagKey column.1 then some ⟨(column.1, s), h⟩ else none
  | _ => none

/-- A tag added, or put in the place of the one of its name. -/
def addTag (tags : AnnotationTags) (m : {m : String × String // validateAnnotationTagKey m.1}) : AnnotationTags where
  members := tags.members.insert m.1.1 m.1.2
  valid k hk := (Members.mem_insertList hk).elim (fun h => h ▸ m.2) (tags.valid k)

def noTags : AnnotationTags := ⟨Members.empty, fun _ h => nomatch h⟩

/-- The tags of a row; one with more values than columns has none. -/
def tags (columns : List String) (v : List Value) : Except RowError AnnotationTags :=
  if columns.length < v.length then .error .panic
  else .ok (((columns.zip v).filterMap tagOf).foldl addTag noTags)

/-- A row and its modification time, `annotationResult`. -/
abbrev Row := Annotation × ℤ

/-- The row of a series as an annotation. -/
def annotation (row : List String × List Value) : Except RowError Row := do
  let endTime ← indexOf row.1 "time" >>= int64 row.2
  let startTime ← indexOf row.1 "start_time" >>= int64 row.2
  let modTime ← indexOf row.1 "modified_time_ns" >>= int64 row.2
  let text ← indexOf row.1 "text" >>= string row.2
  let id ← indexOf row.1 "id" >>= string row.2
  let tags ← tags row.1 row.2
  return (⟨id, startTime, endTime, text, tags⟩, modTime)

/-- The rows of all series with their columns. -/
def rows (r : InfluxResults) : List (List String × List Value) :=
  r.flatten.flatMap fun s => s.values.map fun v => (s.columns, v)

def decode (r : InfluxResults) : Except RowError (List Row) := (rows r).mapM annotation

/-! ### Its annotations -/

/-- A row taken into the map: of two with one ID the one modified later. -/
def take (annos : List Row) (anno : Row) : List Row :=
  match annos.find? fun a => a.1.id = anno.1.id with
  | none => annos ++ [anno]
  | some prev => if anno.2 > prev.2 then annos.map fun a => if a.1.id = anno.1.id then anno else a else annos

theorem latest_eq_take (annos : List Row) (row : Point) : latest annos row = take annos (ofPoint row, row.modifiedTimeNs) :=
  rfl

/-- The comparison of the sort. -/
def less (a b : Annotation) : Bool := a.startTime < b.startTime || a.id < b.id

/-- The order in which a map is ranged over. -/
structure Ranging where
  order : List Row → List Row
  perm : ∀ annos, (order annos).Perm annos

/-- `influxResults.Annotations`. -/
def annotations (sorting : SliceSort Annotation) (ranging : Ranging) (r : InfluxResults) :
    Except RowError (List Annotation) := do
  let annos ← decode r
  return sorting.sort less ((ranging.order (annos.foldl take [])).map Prod.fst)

/-! ### One order -/

/-- Start time and ID. -/
def Annotation.sortKey (a : Annotation) : ℤ ×ₗ String := toLex (a.startTime, a.id)

/-- The row with the greatest modification time of its ID, of several the first one. -/
def Newest (annos : List Row) (a : Row) : Prop :=
  ∃ before after, annos = before ++ a :: after ∧ (∀ b ∈ before, b.1.id = a.1.id → b.2 < a.2) ∧
    ∀ b ∈ after, b.1.id = a.1.id → b.2 ≤ a.2

/-- No two rows with one ID have the same modification time. -/
def Distinct (annos : List Row) : Prop := (annos.map fun a => (a.1.id, a.2)).Nodup

/-- For each ID the annotation of the row with the greatest modification time,
by start time and then ID. -/
structure Answers (annos : List Row) (res : List Annotation) : Prop where
  sorted : res.Pairwise fun a b => Annotation.sortKey a < Annotation.sortKey b
  once : (res.map Annotation.id).Nodup
  every : ∀ a ∈ annos, ∃ b ∈ res, b.id = a.1.id
  newest : ∀ a ∈ res, ∃ t, (a, t) ∈ annos ∧ ∀ b ∈ annos, b.1.id = a.id → b.2 ≤ t

/-- One result for all orders of the map and, if modification times are distinct,
of the series and their rows. -/
def OneOrder (r : InfluxResults) (annos : List Row) : Prop :=
  ∃ res, Answers annos res ∧ ∀ (sorting : SliceSort Annotation) (ranging : Ranging) (r' : InfluxResults),
    r' = r ∨ (rows r').Perm (rows r) ∧ Distinct annos → annotations sorting ranging r' = .ok res

/-! ### The map of the newest rows -/

section Map

variable {annos : List Row} {a b : Row}

theorem newest_append : Newest (annos ++ [b]) a ↔
    Newest annos a ∧ (b.1.id = a.1.id → b.2 ≤ a.2) ∨ a = b ∧ ∀ c ∈ annos, c.1.id = b.1.id → c.2 < b.2 := by
  constructor
  · rintro ⟨before, after, hsplit, hbefore, hafter⟩
    rcases List.eq_nil_or_concat after with rfl | ⟨after, c, rfl⟩
    · obtain ⟨rfl, hb⟩ := List.append_inj' hsplit rfl
      obtain rfl : b = a := List.singleton_inj.mp hb
      exact .inr ⟨rfl, hbefore⟩
    · rw [List.concat_eq_append, ← List.cons_append, ← List.append_assoc] at hsplit
      obtain ⟨rfl, hc⟩ := List.append_inj' hsplit rfl
      obtain rfl : b = c := List.singleton_inj.mp hc
      refine .inl ⟨⟨before, after, rfl, hbefore, fun c hc => hafter c ?_⟩, hafter b ?_⟩ <;> simp [*]
  · rintro (⟨⟨before, after, rfl, hbefore, hafter⟩, hb⟩ | ⟨rfl, hall⟩)
    · refine ⟨before, after ++ [b], by simp, hbefore, fun c hc => ?_⟩
      rcases List.mem_append.mp hc with hc | hc
      · exact hafter c hc
      · exact List.mem_singleton.mp hc ▸ hb
    · exact ⟨annos, [], rfl, hall, fun _ h => nomatch h⟩

theorem Newest.mem (h : Newest annos a) : a ∈ annos := by
  obtain ⟨before, after, rfl, -, -⟩ := h
  simp

theorem Newest.greatest (h : Newest annos a) (hb : b ∈ annos) (hid : b.1.id = a.1.id) : b.2 ≤ a.2 := by
  obtain ⟨before, after, rfl, hbefore, hafter⟩ := h
  rcases List.mem_append.mp hb with hb | hb
  · exact le_of_lt (hbefore b hb hid)
  · rcases List.mem_cons.mp hb with rfl | hb
    · exact le_refl _
    · exact hafter b hb hid

/-- The map of the rows so far. -/
structure Kept (annos kept : List Row) : Prop where
  nodup : (kept.map fun a => a.1.id).Nodup
  newest : ∀ a, a ∈ kept ↔ Newest annos a
  every : ∀ a ∈ annos, ∃ b ∈ kept, b.1.id = a.1.id

theorem kept_nil : Kept [] [] where
  nodup := List.nodup_nil
  newest a := iff_of_false List.not_mem_nil fun ⟨before, after, h, _⟩ => by simp at h
  every _ h := nomatch h

variable {kept : List Row}

/-- A row with a new ID is added. -/
theorem Kept.add (h : Kept annos kept) (hnew : ∀ a ∈ kept, a.1.id ≠ b.1.id) : Kept (annos ++ [b]) (kept ++ [b]) where
  nodup := by
    rw [List.map_append, List.nodup_append]
    refine ⟨h.nodup, List.nodup_singleton _, fun k hk k' hk' heq => ?_⟩
    obtain ⟨a, ha, rfl⟩ := List.mem_map.mp hk
    exact hnew a ha (heq.trans (List.mem_singleton.mp hk'))
  newest a := by
    have habsent : ∀ c ∈ annos, c.1.id ≠ b.1.id := by
      intro c hc hid
      obtain ⟨d, hd, hdc⟩ := h.every c hc
      exact hnew d hd (hdc.trans hid)
    rw [newest_append, List.mem_append, List.mem_singleton, h.newest]
    refine or_congr ⟨fun ha => ⟨ha, fun hid => ?_⟩, And.left⟩ ⟨fun ha => ⟨ha, fun c hc hid => ?_⟩, And.left⟩
    · exact absurd hid.symm (habsent a ha.mem)
    · exact absurd hid (habsent c hc)
  every a ha := by
    rcases List.mem_append.mp ha with ha | ha
    · obtain ⟨c, hc, hid⟩ := h.every a ha
      exact ⟨c, List.mem_append_left _ hc, hid⟩
    · exact ⟨b, by simp, by rw [List.mem_singleton.mp ha]⟩

/-- A row modified later takes the place of the one with its ID. -/
theorem Kept.replace (h : Kept annos kept) {prev : Row} (hprev : prev ∈ kept) (hid : prev.1.id = b.1.id) (hlt : prev.2 < b.2) :
    Kept (annos ++ [b]) (kept.map fun a => if a.1.id = b.1.id then b else a) where
  nodup := by
    have hids : (kept.map fun a => if a.1.id = b.1.id then b else a).map (fun a => a.1.id) = kept.map fun a => a.1.id := by
      rw [List.map_map]
      refine List.map_congr_left fun a _ => ?_
      simp only [Function.comp_apply]
      split_ifs with ha
      · exact ha.symm
      · rfl
    rw [hids]
    exact h.nodup
  newest a := by
    have hlast : ∀ c ∈ annos, c.1.id = b.1.id → c.2 < b.2 := fun c hc hcb =>
      lt_of_le_of_lt (((h.newest prev).mp hprev).greatest hc (hcb.trans hid.symm)) hlt
    rw [newest_append, List.mem_map]
    constructor
    · rintro ⟨c, hc, rfl⟩
      split_ifs with hcb
      · exact .inr ⟨rfl, hlast⟩
      · exact .inl ⟨(h.newest c).mp hc, fun hbc => absurd hbc.symm hcb⟩
    · rintro (⟨ha, hle⟩ | ⟨rfl, -⟩)
      · refine ⟨a, (h.newest a).mpr ha, if_neg fun hab => ?_⟩
        exact absurd (hle hab.symm) (not_le.mpr (hlast a ha.mem hab))
      · exact ⟨prev, hprev, if_pos hid⟩
  every a ha := by
    have hb : b ∈ kept.map fun a => if a.1.id = b.1.id then b else a := List.mem_map.mpr ⟨prev, hprev, if_pos hid⟩
    rcases List.mem_append.mp ha with ha | ha
    · obtain ⟨c, hc, hca⟩ := h.every a ha
      by_cases hcb : c.1.id = b.1.id
      · exact ⟨b, hb, hcb.symm.trans hca⟩
      · exact ⟨c, List.mem_map.mpr ⟨c, hc, if_neg hcb⟩, hca⟩
    · exact ⟨b, hb, by rw [List.mem_singleton.mp ha]⟩

/-- A row that is not modified later is left out. -/
theorem Kept.skip (h : Kept annos kept) {prev : Row} (hprev : prev ∈ kept) (hid : prev.1.id = b.1.id) (hle : b.2 ≤ prev.2) :
    Kept (annos ++ [b]) kept where
  nodup := h.nodup
  newest a := by
    have hnewest := (h.newest prev).mp hprev
    rw [newest_append, h.newest]
    constructor
    · intro ha
      refine .inl ⟨ha, fun hba => ?_⟩
      exact hle.trans (ha.greatest hnewest.mem (hid.trans hba))
    · rintro (⟨ha, -⟩ | ⟨rfl, hall⟩)
      · exact ha
      · exact absurd (hall prev hnewest.mem hid) (not_lt.mpr hle)
  every a ha := by
    rcases List.mem_append.mp ha with ha | ha
    · exact h.every a ha
    · exact ⟨prev, hprev, by rw [List.mem_singleton.mp ha]; exact hid⟩

theorem Kept.take (h : Kept annos kept) (b : Row) : Kept (annos ++ [b]) (take kept b) := by
  unfold Annotations.take
  split
  · rename_i hfind
    exact h.add fun a ha => by simpa using List.find?_eq_none.mp hfind a ha
  · rename_i prev hfind
    have hid : prev.1.id = b.1.id := by simpa using List.find?_some hfind
    have hprev := List.mem_of_find?_eq_some hfind
    split_ifs with hlt
    · exact h.replace hprev hid hlt
    · exact h.skip hprev hid (not_lt.mp hlt)

/-- What the map holds after all rows. -/
theorem kept_foldl (annos : List Row) : Kept annos (annos.foldl take []) := by
  induction annos using List.reverseRecOn with
  | nil => exact kept_nil
  | append_singleton annos b ih =>
    rw [List.foldl_append, List.foldl_cons, List.foldl_nil]
    exact ih.take b

/-- With distinct modification times the order of the rows does not matter. -/
theorem newest_iff (h : Distinct annos) : Newest annos a ↔ a ∈ annos ∧ ∀ b ∈ annos, b.1.id = a.1.id → b.2 ≤ a.2 := by
  refine ⟨fun ha => ⟨ha.mem, fun b hb hid => ha.greatest hb hid⟩, fun ⟨ha, hall⟩ => ?_⟩
  obtain ⟨before, after, rfl⟩ := List.append_of_mem ha
  refine ⟨before, after, rfl, fun b hb hid => lt_of_le_of_ne (hall b (by simp [hb]) hid) fun htime => ?_, fun b hb hid => hall b (by simp [hb]) hid⟩
  unfold Distinct at h
  rw [List.map_append] at h
  have hdisj := (List.nodup_append.mp h).2.2
  exact hdisj (b.1.id, b.2) (List.mem_map_of_mem hb) (a.1.id, a.2) (by simp) (by rw [hid, htime])

theorem kept_perm {annos' kept' : List Row} (h : Kept annos kept) (h' : Kept annos' kept') (hperm : annos'.Perm annos)
    (hdistinct : Distinct annos) : kept'.Perm kept := by
  have hdistinct' : Distinct annos' := (hperm.map _).nodup_iff.mpr hdistinct
  refine (List.perm_ext_iff_of_nodup h'.nodup.of_map h.nodup.of_map).mpr fun a => ?_
  rw [h'.newest, h.newest, newest_iff hdistinct, newest_iff hdistinct', hperm.mem_iff]
  simp only [hperm.mem_iff]

end Map

/-! ### The result -/

section Result

variable {annos kept : List Row} {r : InfluxResults}

theorem decode_perm {r' : InfluxResults} (h : decode r = .ok annos) (hrows : (rows r').Perm (rows r)) :
    ∃ annos', decode r' = .ok annos' ∧ annos'.Perm annos := Except.mapM_perm h hrows

/-- Where IDs are in the order of the start times the comparison is that of the keys. -/
theorem less_iff (h : ∀ a b, Newest annos a → Newest annos b → a.1.startTime < b.1.startTime → a.1.id < b.1.id)
    {a b : Annotation} (ha : ∃ t, Newest annos (a, t)) (hb : ∃ t, Newest annos (b, t)) :
    less a b ↔ Annotation.sortKey a < Annotation.sortKey b := by
  obtain ⟨ta, ha⟩ := ha
  obtain ⟨tb, hb⟩ := hb
  simp only [less, Annotation.sortKey, Prod.Lex.toLex_lt_toLex, Bool.or_eq_true, decide_eq_true_eq]
  constructor
  · rintro (hstart | hid)
    · exact .inl hstart
    · rcases lt_trichotomy a.startTime b.startTime with hlt | heq | hgt
      · exact .inl hlt
      · exact .inr ⟨heq, hid⟩
      · exact absurd (h _ _ hb ha hgt) hid.asymm
  · rintro (hstart | ⟨-, hid⟩)
    · exact .inl hstart
    · exact .inr hid

/-- The annotations of the map in the order of their keys. -/
def inOrder (kept : List Row) : List Annotation :=
  (SliceSort.insertion Annotation).sort (fun a b => decide ( Annotation.sortKey a < Annotation.sortKey b)) (kept.map Prod.fst)

theorem inOrder_perm (kept : List Row) : (inOrder kept).Perm (kept.map Prod.fst) := SliceSort.perm _ _ _

theorem answers_inOrder (h : Kept annos kept) : Answers annos (inOrder kept) := by
  have hperm := inOrder_perm kept
  have hids : ((inOrder kept).map Annotation.id).Nodup := by
    refine (hperm.map _).nodup_iff.mpr ?_
    rw [List.map_map]
    exact h.nodup
  have hsorted : (inOrder kept).Pairwise fun a b => Annotation.sortKey a ≤ Annotation.sortKey b :=
    (SliceSort.insertion Annotation).sorted Annotation.sortKey fun a _ b _ => decide_eq_true_iff
  refine ⟨?_, hids, fun a ha => ?_, fun a ha => ?_⟩
  · refine hsorted.imp₂ (fun a b hle hne => lt_of_le_of_ne hle fun hkey => hne ?_) (List.pairwise_map.mp hids)
    exact congrArg (fun key => (ofLex key).2) hkey
  · obtain ⟨b, hb, hid⟩ := h.every a ha
    exact ⟨b.1, hperm.mem_iff.mpr (List.mem_map_of_mem hb), hid⟩
  · obtain ⟨b, hb, rfl⟩ := List.mem_map.mp (hperm.mem_iff.mp ha)
    have hnewest := (h.newest b).mp hb
    exact ⟨b.2, hnewest.mem, fun c hc hid => hnewest.greatest hc hid⟩

/-- Ranging over one map in an order of its own. -/
def rangingTo (kept target : List Row) (h : target.Perm kept) : Ranging where
  order annos := if annos = kept then target else annos
  perm annos := by
    split_ifs with heq
    · exact heq ▸ h
    · exact List.Perm.refl _

/-- Two of the rows can be the last ones of the map. -/
theorem exists_last_two {a b : Row} (ha : a ∈ kept) (hb : b ∈ kept) (hne : a ≠ b) : ∃ rest, (rest ++ [a, b]).Perm kept := by
  refine ⟨(kept.erase a).erase b, List.perm_append_comm.trans ?_⟩
  have hb' : b ∈ kept.erase a := (List.mem_erase_of_ne hne.symm).mpr hb
  exact ((List.perm_cons_erase hb').symm.cons a).trans (List.perm_cons_erase ha).symm

theorem annotations_ok {r' : InfluxResults} {annos' : List Row} (sorting : SliceSort Annotation) (ranging : Ranging)
    (h : decode r' = .ok annos') : annotations sorting ranging r' =
      .ok (sorting.sort less ((ranging.order (annos'.foldl take [])).map Prod.fst)) := by
  rw [annotations, h]
  rfl

/-- For a reply that is accepted there is one result if and only if of the
annotations in it one that starts earlier than another has the smaller ID. -/
theorem one_order_iff (h : decode r = .ok annos) : OneOrder r annos ↔
    ∀ a b, Newest annos a → Newest annos b → a.1.startTime < b.1.startTime → a.1.id < b.1.id := by
  have hkept := kept_foldl annos
  constructor
  · rintro ⟨res, hanswers, hall⟩ a b ha hb hstart
    by_contra hid
    have hid' : a.1.id ≠ b.1.id := fun heq => by
      have hab := List.inj_on_of_nodup_map hkept.nodup ((hkept.newest a).mpr ha) ((hkept.newest b).mpr hb) heq
      exact absurd hstart (hab ▸ lt_irrefl _)
    have hless : less b.1 a.1 := by
      have hlt : b.1.id < a.1.id := lt_of_le_of_ne (not_lt.mp hid) hid'.symm
      simp [less, hlt]
    -- the two are the last of the map, and change places
    obtain ⟨rest, hrest⟩ := exists_last_two ((hkept.newest a).mpr ha) ((hkept.newest b).mpr hb) fun hab => hid' (hab ▸ rfl)
    have hres := hall (SliceSort.insertion Annotation) (rangingTo _ _ hrest) r (.inl rfl)
    have horder : (rangingTo _ _ hrest).order (annos.foldl take []) = rest ++ [a, b] := if_pos rfl
    rw [annotations_ok _ _ h, horder, List.map_append, Except.ok.injEq] at hres
    have hsub := SliceSort.insertion_last_two hless (rest.map Prod.fst)
    rw [show [a.1, b.1] = [a, b].map Prod.fst from rfl, hres] at hsub
    have hkey : Annotation.sortKey b.1 < Annotation.sortKey a.1 := by
      simpa using hanswers.sorted.sublist hsub
    rcases Prod.Lex.toLex_lt_toLex.mp hkey with hlt | ⟨heq, -⟩
    · exact absurd hlt hstart.asymm
    · exact absurd heq (ne_of_gt hstart)
  · intro hcond
    refine ⟨inOrder (annos.foldl take []), answers_inOrder hkept, fun sorting ranging r' hr' => ?_⟩
    have hdecode : ∃ annos', decode r' = .ok annos' ∧ (annos'.foldl take []).Perm (annos.foldl take []) := by
      rcases hr' with rfl | ⟨hrows, hdistinct⟩
      · exact ⟨annos, h, List.Perm.refl _⟩
      · obtain ⟨annos', hdecode, hperm⟩ := decode_perm h hrows
        exact ⟨annos', hdecode, kept_perm hkept (kept_foldl annos') hperm hdistinct⟩
    obtain ⟨annos', hdecode, hperm⟩ := hdecode
    have hranged : ((ranging.order (annos'.foldl take [])).map Prod.fst).Perm ((annos.foldl take []).map Prod.fst) :=
      ((ranging.perm _).trans hperm).map _
    have hnewest : ∀ a ∈ (ranging.order (annos'.foldl take [])).map Prod.fst, ∃ t, Newest annos (a, t) := by
      intro a ha
      obtain ⟨b, hb, rfl⟩ := List.mem_map.mp (hranged.mem_iff.mp ha)
      exact ⟨b.2, (hkept.newest b).mp hb⟩
    have hsorted := sorting.sort_eq Annotation.sortKey (fun a ha b hb => less_iff hcond (hnewest a ha) (hnewest b hb))
      (hranged.trans (inOrder_perm _).symm) (answers_inOrder hkept).sorted
    rw [annotations_ok _ _ hdecode, hsorted]

end Result

/-! ### Two annotations -/

/-- A reply with two rows, of an annotation from 1 and one from 2. -/
def replyOf (first second : String) : InfluxResults :=
  [[⟨["time", "start_time", "modified_time_ns", "text", "id"],
    [[.number "5", .number "1", .number "7", .string "", .string first],
      [.number "5", .number "2", .number "7", .string "", .string second]]⟩]]

def rowOf (id : String) (startTime : ℤ) : Row := (⟨id, startTime, 5, "", noTags⟩, 7)

theorem tagOf_reserved {name : String} (h : ¬ validateAnnotationTagKey name) (s : String) : tagOf (name, .string s) = none :=
  dif_neg h

theorem decode_replyOf (first second : String) : decode (replyOf first second) = .ok [rowOf first 1, rowOf second 2] := by
  have hone : (Marshal.integer "1").filter isInt64 = some 1 := by decide +kernel
  have htwo : (Marshal.integer "2").filter isInt64 = some 2 := by decide +kernel
  have hfive : (Marshal.integer "5").filter isInt64 = some 5 := by decide +kernel
  have hseven : (Marshal.integer "7").filter isInt64 = some 7 := by decide +kernel
  have hid : ∀ id, tagOf ("id", .string id) = none := tagOf_reserved (by decide)
  have htext : tagOf ("text", .string "") = none := tagOf_reserved (by decide) ""
  have hnumber : ∀ name text, tagOf (name, .number text) = none := fun _ _ => rfl
  simp [decode, rows, replyOf, annotation, indexOf, int64, string, tags, hid, htext, hnumber, hone, htwo,
    hfive, hseven, rowOf, List.lookup, bind, Except.bind, pure, Except.pure]

theorem one_order_a_b : OneOrder (replyOf "a" "b") [rowOf "a" 1, rowOf "b" 2] := by
  refine (one_order_iff (decode_replyOf "a" "b")).mpr fun a b ha hb hstart => ?_
  have hrows : ∀ a ∈ [rowOf "a" 1, rowOf "b" 2], ∀ b ∈ [rowOf "a" 1, rowOf "b" 2],
      a.1.startTime < b.1.startTime → a.1.id < b.1.id := by decide +kernel
  exact hrows a ha.mem b hb.mem hstart

/-- The annotation that starts later has the smaller ID: the order is that of the map. -/
theorem two_orders_b_a : decode (replyOf "b" "a") = .ok [rowOf "b" 1, rowOf "a" 2] ∧
    ¬ OneOrder (replyOf "b" "a") [rowOf "b" 1, rowOf "a" 2] := by
  refine ⟨decode_replyOf "b" "a", ?_⟩
  rintro ⟨res, -, hall⟩
  have hforward := hall (SliceSort.insertion Annotation) ⟨fun annos => annos, List.Perm.refl⟩ _ (.inl rfl)
  have hbackward := hall (SliceSort.insertion Annotation) ⟨List.reverse, List.reverse_perm⟩ _ (.inl rfl)
  rw [annotations_ok _ _ (decode_replyOf "b" "a")] at hforward hbackward
  exact absurd (hforward.trans hbackward.symm) (by decide +kernel)

end Annotations
end Chronograf
