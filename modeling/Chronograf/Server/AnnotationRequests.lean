/-
# Requests that make and change annotations

`server/annotations.go`. The bodies are decoded by two decoders; the one of new
annotations puts the two times in order, the one of updates does not, and it
counts the tags of a body as nothing to update. How a time is read is a
parameter. What an update stores is read back if it arrives whole and is newer
than what else there is under its ID.

Key definitions: `newAnnotation`, `updateAnnotation`, `Request`, `Orderly`,
`Lands`.
Key theorem: `annotations_kept_iff`.
-/
import Chronograf.Influx.AnnotationRuns
import Chronograf.Lib.Checks

namespace Chronograf
namespace Annotations

/-! ### Bodies -/

/-- The members of a body; `null` is the same as none. -/
structure Body where
  startTime : Option String
  endTime : Option String
  text : Option String
  tags : Option (Members String)

inductive RequestError
  | invalidJSON
  | invalidTags
  | notFound
  | store (e : Error)

/-- `AnnotationTags.Valid`. -/
def validTags (members : Members String) : Except RequestError AnnotationTags :=
  if h : ∀ m ∈ members.toList, validateAnnotationTagKey m.1 then .ok ⟨members, h⟩ else .error .invalidTags

/-- `newAnnotationRequest`. -/
structure NewRequest where
  startTime : ℤ
  endTime : ℤ
  text : String
  tags : Members String

/-- `updateAnnotationRequest`. -/
structure UpdateRequest where
  startTime : Option ℤ
  endTime : Option ℤ
  text : Option String
  tags : Option (Members String)

variable (parse : String → Option ℤ)

/-- `time.Parse(timeMilliFormat, …)`. -/
def parseTime (text : String) : Except RequestError ℤ :=
  match parse text with
  | some t => .ok t
  | none => .error .invalidJSON

/-- `newAnnotationRequest.UnmarshalJSON`. -/
def NewRequest.unmarshal (body : Body) : Except RequestError NewRequest := do
  let startTime ← parseTime parse (body.startTime.getD "")
  let endTime ← parseTime parse (body.endTime.getD "")
  let text := body.text.getD ""
  let tags := body.tags.getD .empty
  if startTime > endTime then return ⟨endTime, startTime, text, tags⟩
  else return ⟨startTime, endTime, text, tags⟩

/-- `updateAnnotationRequest.UnmarshalJSON`. -/
def UpdateRequest.unmarshal (body : Body) : Except RequestError UpdateRequest := do
  let startTime ← body.startTime.mapM (parseTime parse)
  let endTime ← body.endTime.mapM (parseTime parse)
  -- update must have at least one field set
  if startTime = none ∧ endTime = none ∧ body.text = none then .error .invalidJSON
  else return ⟨startTime, endTime, body.text, body.tags⟩

/-! ### Handlers -/

variable (db : Database)

/-- `NewAnnotation`, with the ID that is generated. -/
def newAnnotation (ps : List Point) (id : String) (body : Body) (t : Times) : Except RequestError (List Point) := do
  let req ← NewRequest.unmarshal parse body
  let tags ← validTags req.tags
  return add ps id ⟨"", req.startTime, req.endTime, req.text, tags⟩ t

/-- The fields of an update put into the annotation. -/
def UpdateRequest.merge (req : UpdateRequest) (cur : Annotation) : Except RequestError Annotation := do
  let tags ← match req.tags with
    | none => pure cur.tags
    | some members => validTags members
  return { cur with
    startTime := req.startTime.getD cur.startTime
    endTime := req.endTime.getD cur.endTime
    text := req.text.getD cur.text
    tags := tags }

/-- `UpdateAnnotation`. -/
def updateAnnotation (ps : List Point) (id : String) (body : Body) (t t' : Times) : Except RequestError (List Point) :=
  match get db ps id with
  | .error _ => .error .notFound
  | .ok cur => do
    let req ← UpdateRequest.unmarshal parse body
    let anno ← req.merge cur
    match update db ps anno t t' with
    | .ok ps => return ps
    | .error e => .error (.store e)

/-- Times of a write; the clock of a server is past the year 1970. -/
structure Moment extends Times where
  clock_pos : 0 < clock

inductive Request
  | new (id : String) (body : Body) (t : Moment)
  | update (id : String) (body : Body) (t t' : Moment)

/-- The points after a request that succeeds. -/
def handle (ps : List Point) : Request → Option (List Point)
  | .new id body t => ( newAnnotation parse ps id body t.toTimes).toOption
  | .update id body t t' => ( updateAnnotation parse db ps id body t.toTimes t'.toTimes).toOption

/-! ### Well-formed annotations -/

/-- What is stored and not deleted starts before it ends, and no tag of it is named like a column. -/
def WellFormed (ps : List Point) : Prop :=
  ∀ p ∈ ps, p.deleted = false → p.startTime ≤ p.time ∧ ∀ m ∈ p.tags.members.toList, m.1 ∉ annotationTagsBlacklist

/-- An update leaves the times in order. -/
def Orderly (ps : List Point) : Request → Prop
  | .new _ _ _ => True
  | .update id body _ _ => ∀ cur req anno, get db ps id = .ok cur → UpdateRequest.unmarshal parse body = .ok req →
      req.merge cur = .ok anno → anno.startTime ≤ anno.endTime

/-- A request that has changed the store. -/
theorem ok_of_toOption {ε α : Type} {r : Except ε α} {a : α} (h : r.toOption = some a) : r = .ok a := by
  cases r with
  | error e => cases h
  | ok b => exact congrArg Except.ok (Option.some.inj h)

section Runs

variable {parse : String → Option ℤ} {db : Database} {ps ps' : List Point}

theorem tags_not_reserved (tags : AnnotationTags) : ∀ m ∈ tags.members.toList, m.1 ∉ annotationTagsBlacklist := by
  intro m hm
  have hvalid := tags.valid m hm
  simp only [validateAnnotationTagKey, decide_eq_true_eq] at hvalid
  exact hvalid.1

/-- A write of a point that is in order, or deleted. -/
theorem WellFormed.write (h : WellFormed ps) {p : Point} (t : Moment) (hp : p.deleted = false → p.startTime ≤ p.time) :
    WellFormed (write ps t.clock p) := by
  intro q hq hdel
  refine ⟨?_, tags_not_reserved q.tags⟩
  rcases List.mem_append.mp hq with hq | hq
  · exact (h q (List.mem_filter.mp hq).1 hdel).1
  · obtain rfl := List.mem_singleton.mp hq
    have hle : p.startTime ≤ p.time := hp hdel
    show p.startTime ≤ if p.time = 0 then t.clock else p.time
    split_ifs with hzero
    · rw [hzero] at hle
      exact hle.trans (le_of_lt t.clock_pos)
    · exact hle

/-- The decoder of new annotations puts the times in order. -/
theorem NewRequest.unmarshal_ordered {body : Body} {req : NewRequest} (h : NewRequest.unmarshal parse body = .ok req) :
    req.startTime ≤ req.endTime := by
  obtain ⟨start, -, h⟩ := Except.bind_ok_iff.mp h
  obtain ⟨stop, -, h⟩ := Except.bind_ok_iff.mp h
  dsimp only at h
  split_ifs at h with hlt
  · obtain rfl := Except.ok.inj h
    exact le_of_lt hlt
  · obtain rfl := Except.ok.inj h
    exact not_lt.mp hlt

theorem handle_wellFormed (h : WellFormed ps) {r : Request} (hr : Orderly parse db ps r) (hstep : handle parse db ps r = some ps') :
    WellFormed ps' := by
  cases r with
  | new id body t =>
    obtain ⟨req, hreq, hrest⟩ := Except.bind_ok_iff.mp (ok_of_toOption hstep)
    obtain ⟨tags, -, hps⟩ := Except.bind_ok_iff.mp hrest
    obtain rfl := Except.ok.inj hps
    exact h.write t fun _ => NewRequest.unmarshal_ordered hreq
  | update id body t t' =>
    have hok := ok_of_toOption hstep
    unfold updateAnnotation at hok
    cases hcur : get db ps id with
    | error e =>
      rw [hcur] at hok
      cases hok
    | ok cur =>
      rw [hcur] at hok
      obtain ⟨req, hreq, hrest⟩ := Except.bind_ok_iff.mp hok
      obtain ⟨anno, hanno, hrest⟩ := Except.bind_ok_iff.mp hrest
      have hnew : WellFormed (write ps t.clock (toPoint anno t.now)) := h.write t fun _ => hr cur req anno hcur hreq hanno
      cases hupdate : update db ps anno t.toTimes t'.toTimes with
      | error e =>
        rw [hupdate] at hrest
        cases hrest
      | ok ps₁ =>
        rw [hupdate] at hrest
        obtain rfl : ps₁ = ps' := Except.ok.inj hrest
        obtain ⟨old, -, hps⟩ := Except.bind_ok_iff.mp hupdate
        dsimp only at hps
        split_ifs at hps
        · obtain rfl := Except.ok.inj hps
          exact hnew.write t' nofun
        · obtain rfl := Except.ok.inj hps
          exact hnew

end Runs

/-! ### Rows of one ID -/

/-- Of two rows the one modified later; the first one if neither is. -/
def later (p q : Point) : Point := if q.modifiedTimeNs > p.modifiedTimeNs then q else p

theorem foldl_latest_same : ∀ {rows : List Point} {p : Point}, (∀ q ∈ rows, q.id = p.id) →
    rows.foldl latest [(ofPoint p, p.modifiedTimeNs)] =
      [(ofPoint (rows.foldl later p), (rows.foldl later p).modifiedTimeNs)]
  | [], _, _ => rfl
  | q :: rows, p, h => by
    have hid : q.id = p.id := h q List.mem_cons_self
    have hrest : ∀ r ∈ rows, r.id = (later p q).id := by
      intro r hr
      rw [h r (List.mem_cons_of_mem _ hr), later]
      split_ifs
      · exact hid.symm
      · rfl
    have hfirst : latest [(ofPoint p, p.modifiedTimeNs)] q = [(ofPoint (later p q), (later p q).modifiedTimeNs)] := by
      have hofPoint : (ofPoint p).id = q.id := hid.symm
      unfold latest later
      simp only [List.find?_cons, hofPoint, decide_true, List.map_cons, List.map_nil, if_true]
      split_ifs <;> rfl
    rw [List.foldl_cons, List.foldl_cons, hfirst]
    exact foldl_latest_same hrest

theorem foldl_later_mem : ∀ {rows : List Point} {p : Point}, rows.foldl later p ∈ p :: rows
  | [], _ => List.mem_cons_self
  | q :: rows, p => by
    rcases List.mem_cons.mp (foldl_later_mem : rows.foldl later (later p q) ∈ later p q :: rows) with h | h
    · rw [List.foldl_cons, h, later]
      split_ifs
      · exact List.mem_cons_of_mem _ List.mem_cons_self
      · exact List.mem_cons_self
    · exact List.mem_cons_of_mem _ (List.mem_cons_of_mem _ h)

theorem le_foldl_later : ∀ {rows : List Point} {p q : Point}, q ∈ p :: rows →
    q.modifiedTimeNs ≤ (rows.foldl later p).modifiedTimeNs
  | [], p, q, h => by
    obtain rfl := List.mem_singleton.mp h
    exact le_rfl
  | r :: rows, p, q, h => by
    have hlater : p.modifiedTimeNs ≤ (later p r).modifiedTimeNs ∧ r.modifiedTimeNs ≤ (later p r).modifiedTimeNs := by
      unfold later
      split_ifs with hlt
      · exact ⟨le_of_lt hlt, le_rfl⟩
      · exact ⟨le_rfl, not_lt.mp hlt⟩
    have hfirst : (later p r).modifiedTimeNs ≤ (rows.foldl later (later p r)).modifiedTimeNs := le_foldl_later List.mem_cons_self
    rcases List.mem_cons.mp h with rfl | h
    · exact hlater.1.trans hfirst
    · rcases List.mem_cons.mp h with rfl | h
      · exact hlater.2.trans hfirst
      · exact le_foldl_later (p := later p r) (List.mem_cons_of_mem _ h)

/-- The first row is kept if none is newer. -/
theorem foldl_later_self {p : Point} : ∀ {rows : List Point}, (∀ q ∈ rows, q.modifiedTimeNs ≤ p.modifiedTimeNs) →
    rows.foldl later p = p
  | [], _ => rfl
  | q :: rows, h => by
    have hp : later p q = p := if_neg (not_lt.mpr (h q List.mem_cons_self))
    rw [List.foldl_cons, hp]
    exact foldl_later_self fun r hr => h r (List.mem_cons_of_mem _ hr)

/-- The row that is kept, of one or more. -/
def newest : List Point → Option Point
  | [] => none
  | p :: rows => some (rows.foldl later p)

/-- It is newer than those before it and not older than those after it. -/
theorem newest_eq_iff {n : Point} {before after : List Point} (hbefore : n ∉ before) (hafter : n ∉ after) :
    newest (before ++ n :: after) = some n ↔
      (∀ q ∈ before, q.modifiedTimeNs < n.modifiedTimeNs) ∧ ∀ q ∈ after, q.modifiedTimeNs ≤ n.modifiedTimeNs := by
  have hself : after.foldl later n = n ↔ ∀ q ∈ after, q.modifiedTimeNs ≤ n.modifiedTimeNs := by
    refine ⟨fun h q hq => ?_, foldl_later_self⟩
    have hle := le_foldl_later (List.mem_cons_of_mem n hq)
    rwa [h] at hle
  cases before with
  | nil => exact Option.some_inj.trans (hself.trans (by simp))
  | cons p before =>
    rw [List.cons_append, newest, Option.some_inj, List.foldl_append, List.foldl_cons]
    by_cases hall : ∀ q ∈ p :: before, q.modifiedTimeNs < n.modifiedTimeNs
    · have hn : later (before.foldl later p) n = n := if_pos (hall _ foldl_later_mem)
      rw [hn, hself]
      exact ⟨fun h => ⟨hall, h⟩, And.right⟩
    · push Not at hall
      obtain ⟨q, hq, hqn⟩ := hall
      have hkeep : later (before.foldl later p) n = before.foldl later p :=
        if_neg (not_lt.mpr (hqn.trans (le_foldl_later hq)))
      rw [hkeep]
      refine iff_of_false (fun h => ?_) fun h => absurd (h.1 q hq) (not_lt.mpr hqn)
      have hmem : n ∈ before.foldl later p :: after := h ▸ foldl_later_mem
      rcases List.mem_cons.mp hmem with heq | hmem
      · exact hbefore (heq ▸ foldl_later_mem)
      · exact hafter hmem

/-- Rows in the order of their times, the latest first. -/
abbrev byTime (rows : List Point) : List Point := rows.insertionSort fun a b => b.time ≤ a.time

theorem orderedInsert_before {a n : Point} (after : List Point) (ha : n.time ≤ a.time) : ∀ before : List Point,
    (before ++ n :: after).orderedInsert (fun a b => b.time ≤ a.time) a =
      before.orderedInsert (fun a b => b.time ≤ a.time) a ++ n :: after
  | [] => by
    rw [List.nil_append, List.orderedInsert_cons, if_pos ha]
    rfl
  | b :: before => by
    rw [List.cons_append, List.orderedInsert_cons, List.orderedInsert_cons]
    split_ifs
    · rfl
    · rw [orderedInsert_before after ha before]
      rfl

theorem orderedInsert_after {a n : Point} (after : List Point) (ha : a.time < n.time) : ∀ before : List Point,
    (∀ q ∈ before, n.time ≤ q.time) → (before ++ n :: after).orderedInsert (fun a b => b.time ≤ a.time) a =
      before ++ n :: after.orderedInsert (fun a b => b.time ≤ a.time) a
  | [], _ => by
    rw [List.nil_append, List.orderedInsert_cons, if_neg (not_le.mpr ha)]
    rfl
  | b :: before, h => by
    have hb : a.time < b.time := ha.trans_le (h b List.mem_cons_self)
    rw [List.cons_append, List.orderedInsert_cons, if_neg (not_le.mpr hb),
      orderedInsert_after after ha before fun q hq => h q (List.mem_cons_of_mem _ hq)]
    rfl

/-- A row that comes last stands behind those of its time. -/
theorem byTime_append (n : Point) : ∀ rows : List Point, ∃ before after, byTime (rows ++ [n]) = before ++ n :: after ∧
    (before ++ after).Perm rows ∧ (∀ q ∈ before, n.time ≤ q.time) ∧ ∀ q ∈ after, q.time < n.time
  | [] => ⟨[], [], rfl, .refl _, nofun, nofun⟩
  | a :: rows => by
    obtain ⟨before, after, heq, hperm, hbefore, hafter⟩ := byTime_append n rows
    have hsort : byTime (a :: rows ++ [n]) = (before ++ n :: after).orderedInsert (fun a b => b.time ≤ a.time) a := by
      rw [← heq]
      rfl
    by_cases ha : n.time ≤ a.time
    · refine ⟨_, after, hsort.trans (orderedInsert_before after ha before), ?_, ?_, hafter⟩
      · exact ((List.perm_orderedInsert _ a before).append_right after).trans (hperm.cons a)
      · intro q hq
        rcases List.mem_cons.mp ((List.perm_orderedInsert _ a before).mem_iff.mp hq) with rfl | hq
        · exact ha
        · exact hbefore q hq
    · refine ⟨before, _, hsort.trans (orderedInsert_after after (not_le.mp ha) before hbefore), ?_, hbefore, ?_⟩
      · exact ((List.perm_orderedInsert _ a after).append_left before).trans (List.perm_middle.trans (hperm.cons a))
      · intro q hq
        rcases List.mem_cons.mp ((List.perm_orderedInsert _ a after).mem_iff.mp hq) with rfl | hq
        · exact not_le.mp ha
        · exact hafter q hq

/-- The row that came last is kept if it is newer than those that are not earlier. -/
theorem newest_byTime_iff {n : Point} {rows : List Point} (hn : n ∉ rows) :
    newest (byTime (rows ++ [n])) = some n ↔
      ∀ q ∈ rows, q.modifiedTimeNs < n.modifiedTimeNs ∨ q.modifiedTimeNs = n.modifiedTimeNs ∧ q.time < n.time := by
  obtain ⟨before, after, heq, hperm, hbefore, hafter⟩ := byTime_append n rows
  have hmem : ∀ q, q ∈ rows ↔ q ∈ before ∨ q ∈ after := fun q => hperm.mem_iff.symm.trans List.mem_append
  rw [heq, newest_eq_iff (fun h => hn ((hmem n).mpr (.inl h))) fun h => hn ((hmem n).mpr (.inr h))]
  constructor
  · rintro ⟨hlt, hle⟩ q hq
    rcases (hmem q).mp hq with hq | hq
    · exact .inl (hlt q hq)
    · exact (lt_or_eq_of_le (hle q hq)).imp_right fun h => ⟨h, hafter q hq⟩
  · intro h
    constructor
    · intro q hq
      rcases h q ((hmem q).mpr (.inl hq)) with hlt | ⟨-, htime⟩
      · exact hlt
      · exact absurd htime (not_lt.mpr (hbefore q hq))
    · intro q hq
      rcases h q ((hmem q).mpr (.inr hq)) with hlt | ⟨heq, -⟩
      · exact le_of_lt hlt
      · exact le_of_eq heq

/-- The points under an ID that are read. -/
def rowsOf (ps : List Point) (id : String) : List Point := ps.filter fun p => p.id = id && !p.deleted

/-- What is read under an ID: the row that is kept. -/
theorem get_eq {db : Database} (hdb : db.Documented) {id : String} (hid : Plain id) (ps : List Point) :
    get db ps id = match newest (byTime (rowsOf ps id)) with
      | some p => .ok (ofPoint p)
      | none => .error .errAnnotationNotFound := by
  have hquery : queryAnnotations db ps (getAnnotationID id) = .ok (ofRows (byTime (rowsOf ps id))) := by
    rw [queryAnnotations, hdb.getAnnotationID id hid]
    rfl
  have hids : ∀ p ∈ byTime (rowsOf ps id), p.id = id := by
    intro p hp
    have hp := (List.mem_filter.mp ((List.perm_insertionSort _ _).mem_iff.mp hp)).2
    simp only [Bool.and_eq_true, decide_eq_true_eq] at hp
    exact hp.1
  rw [get, hquery]
  cases hrows : byTime (rowsOf ps id) with
  | nil => rfl
  | cons p rows =>
    rw [hrows] at hids
    have hofRows : ofRows (p :: rows) = [ofPoint (rows.foldl later p)] :=
      congrArg (List.map Prod.fst) (foldl_latest_same fun q hq =>
        (hids q (List.mem_cons_of_mem _ hq)).trans (hids p List.mem_cons_self).symm)
    rw [hofRows]
    rfl

/-! ### What an update leaves -/

/-- The annotation with the fields of the body, and no others, put in their places. -/
structure Edited (parse : String → Option ℤ) (body : Body) (cur anno : Annotation) : Prop where
  id : anno.id = cur.id
  startTime : match body.startTime with
    | none => anno.startTime = cur.startTime
    | some text => parse text = some anno.startTime
  endTime : match body.endTime with
    | none => anno.endTime = cur.endTime
    | some text => parse text = some anno.endTime
  text : anno.text = body.text.getD cur.text
  tags : match body.tags with
    | none => anno.tags = cur.tags
    | some members => anno.tags.members = members

/-- All of the annotation arrives, and it is newer than every other row of its ID that stays. -/
structure Lands (ps : List Point) (cur anno : Annotation) (now : ℤ) : Prop where
  whole : Annotation.Whole anno
  newest : ∀ q ∈ rowsOf ps cur.id, q.key ≠ (cur.id, anno.tags, anno.endTime) →
    (cur.endTime ≠ anno.endTime → q.key ≠ (cur.id, cur.tags, cur.endTime)) →
    q.modifiedTimeNs < now ∨ q.modifiedTimeNs = now ∧ q.time < anno.endTime

/-- Points as they arrive. -/
def Arrived (ps : List Point) : Prop := ∀ p ∈ ps, (∀ m ∈ p.tags.members.toList, m.2 ≠ "") ∧ p.time ≠ 0

section Updates

variable {parse : String → Option ℤ} {db : Database} {ps ps' : List Point} {body : Body} {cur anno : Annotation}

theorem Arrived.write (h : Arrived ps) (t : Moment) (p : Point) : Arrived (write ps t.clock p) := by
  intro q hq
  rcases List.mem_append.mp hq with hq | hq
  · exact h q (List.mem_filter.mp hq).1
  · obtain rfl := List.mem_singleton.mp hq
    constructor
    · intro m hm
      exact of_decide_eq_true (List.mem_filter.mp hm).2
    · show (if p.time = 0 then t.clock else p.time) ≠ 0
      split_ifs with hzero
      · exact ne_of_gt t.clock_pos
      · exact hzero

/-- The body is refused if it has tags at most, and what it has is put into the annotation otherwise. -/
theorem unmarshal_of_edited (h : Edited parse body cur anno) :
    if body.startTime = none ∧ body.endTime = none ∧ body.text = none then
      UpdateRequest.unmarshal parse body = .error .invalidJSON
    else ∃ req, UpdateRequest.unmarshal parse body = .ok req ∧ req.merge cur = .ok anno := by
  obtain ⟨startTime, endTime, text, tags⟩ := body
  obtain ⟨id, start, stop, annoText, annoTags⟩ := anno
  obtain ⟨hid, hstart, hstop, htext, htags⟩ := h
  dsimp only at hid hstart hstop htext htags
  have hmerge : ∀ rstart rstop : Option ℤ, rstart.getD cur.startTime = start → rstop.getD cur.endTime = stop →
      UpdateRequest.merge ⟨rstart, rstop, text, tags⟩ cur = .ok ⟨id, start, stop, annoText, annoTags⟩ := by
    intro rstart rstop hrstart hrstop
    subst hid htext hrstart hrstop
    cases tags with
    | none =>
      subst htags
      rfl
    | some members =>
      subst htags
      have hvalid : validTags annoTags.members = .ok annoTags := dif_pos annoTags.valid
      simp only [UpdateRequest.merge, hvalid]
      rfl
  have hread : ∀ {text : String} {t : ℤ}, parse text = some t → parseTime parse text = .ok t := by
    intro text t ht
    rw [parseTime, ht]
  cases startTime with
  | none =>
    cases endTime with
    | none =>
      cases text with
      | none => rfl
      | some text => exact ⟨_, rfl, hmerge none none hstart.symm hstop.symm⟩
    | some stopText =>
      refine ⟨⟨none, some stop, text, tags⟩, ?_, hmerge none (some stop) hstart.symm rfl⟩
      simp only [UpdateRequest.unmarshal, Option.mapM_some, hread hstop]
      rfl
  | some startText =>
    cases endTime with
    | none =>
      refine ⟨⟨some start, none, text, tags⟩, ?_, hmerge (some start) none rfl hstop.symm⟩
      simp only [UpdateRequest.unmarshal, Option.mapM_some, hread hstart]
      rfl
    | some stopText =>
      refine ⟨⟨some start, some stop, text, tags⟩, ?_, hmerge (some start) (some stop) rfl rfl⟩
      simp only [UpdateRequest.unmarshal, Option.mapM_some, hread hstart, hread hstop]
      rfl

/-- The rows under an ID after a write. -/
theorem rowsOf_write (ps : List Point) (clock : ℤ) (p : Point) (id : String) : rowsOf (write ps clock p) id =
    (rowsOf ps id).filter (·.key ≠ (sent clock p).key) ++ if p.id = id ∧ p.deleted = false then [sent clock p] else [] := by
  have hsent : (sent clock p).id = p.id ∧ (sent clock p).deleted = p.deleted := ⟨rfl, rfl⟩
  rw [rowsOf, write, List.filter_append, List.filter_filter, rowsOf, List.filter_filter]
  congr 1
  · exact List.filter_congr fun q _ => Bool.and_comm _ _
  · rw [List.filter_singleton, hsent.1, hsent.2]
    by_cases hid : p.id = id <;> cases p.deleted <;> simp [hid]

theorem rowsOf_write_other {p : Point} {id : String} (h : p.id ≠ id) (ps : List Point) (clock : ℤ) :
    rowsOf (write ps clock p) id = rowsOf ps id := by
  rw [rowsOf_write, if_neg fun hp => h hp.1, List.append_nil, List.filter_eq_self]
  intro q hq
  have hid : q.id = id := by
    have hq := (List.mem_filter.mp hq).2
    simp only [Bool.and_eq_true, decide_eq_true_eq] at hq
    exact hq.1
  refine decide_eq_true fun hkey => h ?_
  exact (congrArg Prod.fst hkey).symm.trans hid

/-- The rows of the ID that an update leaves. -/
def staying (ps : List Point) (cur anno : Annotation) : List Point := (rowsOf ps cur.id).filter fun q =>
  q.key ≠ (cur.id, anno.tags, anno.endTime) ∧ (cur.endTime ≠ anno.endTime → q.key ≠ (cur.id, cur.tags, cur.endTime))

theorem rowsOf_update (hcur : Annotation.Whole cur) (hanno : Annotation.Whole anno) (hid : anno.id = cur.id)
    (hget : get db ps anno.id = .ok cur) (t t' : Times) (hupdate : update db ps anno t t' = .ok ps') :
    rowsOf ps' cur.id = staying ps cur anno ++ [toPoint anno t.now] := by
  have hkey : (toPoint anno t.now).key = (cur.id, anno.tags, anno.endTime) := by rw [← hid]; rfl
  have hwrite : rowsOf (write ps t.clock (toPoint anno t.now)) cur.id =
      (rowsOf ps cur.id).filter (·.key ≠ (cur.id, anno.tags, anno.endTime)) ++ [toPoint anno t.now] := by
    rw [rowsOf_write, sent_toPoint hanno, hkey, if_pos ⟨hid, rfl⟩]
  rw [update, hget] at hupdate
  by_cases htime : cur.endTime = anno.endTime
  · obtain rfl : write ps t.clock (toPoint anno t.now) = ps' := by
      simpa [htime, bind, Except.bind, pure, Except.pure] using hupdate
    rw [hwrite, staying]
    simp [htime]
  · obtain rfl : write (write ps t.clock (toPoint anno t.now)) t'.clock (toDeletedPoint cur t'.now) = ps' := by
      simpa [htime, bind, Except.bind, pure, Except.pure] using hupdate
    have hnew : (toPoint anno t.now).key ≠ (toDeletedPoint cur t'.now).key := by
      intro h
      exact htime (congrArg (fun k => k.2.2) h).symm
    have htomb : (toDeletedPoint cur t'.now).key = (cur.id, cur.tags, cur.endTime) := rfl
    have hgone : ¬ ((toDeletedPoint cur t'.now).id = cur.id ∧ (toDeletedPoint cur t'.now).deleted = false) := by
      rintro ⟨-, h⟩
      cases h
    rw [rowsOf_write, sent_toDeletedPoint hcur, if_neg hgone, List.append_nil, hwrite, List.filter_append,
      List.filter_filter, List.filter_singleton, decide_eq_true hnew, cond_true, staying, htomb]
    congr 1
    refine List.filter_congr fun q _ => ?_
    simp only [ne_eq, htime, not_false_eq_true, true_imp_iff, Bool.decide_and, Bool.and_comm]

theorem mem_of_newest : ∀ {rows : List Point} {p : Point}, newest rows = some p → p ∈ rows
  | [], _, h => nomatch h
  | q :: rows, p, h => by
    obtain rfl : rows.foldl later q = p := Option.some.inj h
    exact foldl_later_mem

/-- What is read is a point under its ID. -/
theorem exists_of_get (hdb : db.Documented) {id : String} (hid : Plain id) (h : get db ps id = .ok anno) :
    ∃ p ∈ rowsOf ps id, newest (byTime (rowsOf ps id)) = some p ∧ ofPoint p = anno := by
  rw [get_eq hdb hid] at h
  cases hnewest : newest (byTime (rowsOf ps id)) with
  | none =>
    rw [hnewest] at h
    cases h
  | some p =>
    rw [hnewest] at h
    exact ⟨p, (List.perm_insertionSort _ _).mem_iff.mp (mem_of_newest hnewest), rfl, Except.ok.inj h⟩

theorem mem_rowsOf {p : Point} {id : String} : p ∈ rowsOf ps id ↔ p ∈ ps ∧ p.id = id ∧ p.deleted = false := by
  simp [rowsOf]

theorem Arrived.whole (h : Arrived ps) (hdb : db.Documented) {id : String} (hid : Plain id) (hget : get db ps id = .ok anno) :
    Annotation.Whole anno ∧ anno.id = id := by
  obtain ⟨p, hp, -, rfl⟩ := exists_of_get hdb hid hget
  obtain ⟨hmem, rfl, -⟩ := mem_rowsOf.mp hp
  exact ⟨⟨(h p hmem).1, (h p hmem).2⟩, rfl⟩

/-- What an update leaves to be read, under its ID and under others. -/
theorem update_read (hdb : db.Documented) (harrived : Arrived ps) (hplain : Plain cur.id) (hget : get db ps cur.id = .ok cur)
    (hid : anno.id = cur.id) (t t' : Moment) :
    ∃ ps', update db ps anno t.toTimes t'.toTimes = .ok ps' ∧ (get db ps' cur.id = .ok anno ↔ Lands ps cur anno t.now) ∧
      ∀ id, id ≠ cur.id → Plain id → get db ps' id = get db ps id := by
  obtain ⟨hcur, -⟩ := harrived.whole hdb hplain hget
  have hget' : get db ps anno.id = .ok cur := hid ▸ hget
  obtain ⟨ps', hupdate, harrived', hother⟩ : ∃ ps', update db ps anno t.toTimes t'.toTimes = .ok ps' ∧ Arrived ps' ∧
      ∀ id, id ≠ cur.id → rowsOf ps' id = rowsOf ps id := by
    rw [update, hget']
    have hanno : ∀ id, id ≠ cur.id → (toPoint anno t.now).id ≠ id := fun id hne h => hne (h.symm.trans hid)
    by_cases htime : cur.endTime = anno.endTime
    · refine ⟨write ps t.clock (toPoint anno t.now), ?_, harrived.write t _, fun id hne => rowsOf_write_other (hanno id hne) ..⟩
      simp [htime, bind, Except.bind, pure, Except.pure]
    · refine ⟨write (write ps t.clock (toPoint anno t.now)) t'.clock (toDeletedPoint cur t'.now), ?_,
        (harrived.write t _).write t' _, fun id hne => ?_⟩
      · simp [htime, bind, Except.bind, pure, Except.pure]
      · rw [rowsOf_write_other (show (toDeletedPoint cur t'.now).id ≠ id from hne.symm), rowsOf_write_other (hanno id hne)]
  refine ⟨ps', hupdate, ?_, fun id hne hidplain => ?_⟩
  · by_cases hwhole : Annotation.Whole anno
    · have hrows := rowsOf_update hcur hwhole hid hget' t.toTimes t'.toTimes hupdate
      have hkey : (toPoint anno t.now).key = (cur.id, anno.tags, anno.endTime) := by rw [← hid]; rfl
      have hnew : toPoint anno t.now ∉ staying ps cur anno := by
        intro h
        have hstay := of_decide_eq_true (List.mem_filter.mp h).2
        exact hstay.1 hkey
      have hnewest : newest (byTime (rowsOf ps' cur.id)) = some (toPoint anno t.now) ↔ Lands ps cur anno t.now := by
        rw [hrows, newest_byTime_iff hnew]
        constructor
        · intro h
          exact ⟨hwhole, fun q hq hkey hcurkey => h q (List.mem_filter.mpr ⟨hq, decide_eq_true ⟨hkey, hcurkey⟩⟩)⟩
        · intro h q hq
          obtain ⟨hq, hstay⟩ := List.mem_filter.mp hq
          have hstay := of_decide_eq_true hstay
          exact h.newest q hq hstay.1 hstay.2
      rw [← hnewest]
      constructor
      · intro hread
        obtain ⟨p, hp, hkept, hp_eq⟩ := exists_of_get hdb hplain hread
        rw [hrows] at hp
        rcases List.mem_append.mp hp with hp | hp
        · have hstay := of_decide_eq_true (List.mem_filter.mp hp).2
          refine absurd ?_ hstay.1
          rw [← hp_eq, ← hid, ← hp_eq]
          rfl
        · rw [hkept, List.mem_singleton.mp hp]
      · intro hkept
        rw [get_eq hdb hplain, hkept]
        rfl
    · refine iff_of_false (fun hread => hwhole ?_) fun h => hwhole h.whole
      exact (harrived'.whole hdb hplain hread).1
  · rw [get_eq hdb hidplain, get_eq hdb hidplain, hother id hne]

theorem handle_arrived (h : Arrived ps) {r : Request} (hstep : handle parse db ps r = some ps') : Arrived ps' := by
  cases r with
  | new id body t =>
    obtain ⟨req, -, hrest⟩ := Except.bind_ok_iff.mp (ok_of_toOption hstep)
    obtain ⟨tags, -, hps⟩ := Except.bind_ok_iff.mp hrest
    obtain rfl := Except.ok.inj hps
    exact h.write t _
  | update id body t t' =>
    have hok := ok_of_toOption hstep
    unfold updateAnnotation at hok
    cases hcur : get db ps id with
    | error e =>
      rw [hcur] at hok
      cases hok
    | ok cur =>
      rw [hcur] at hok
      obtain ⟨req, -, hrest⟩ := Except.bind_ok_iff.mp hok
      obtain ⟨anno, -, hrest⟩ := Except.bind_ok_iff.mp hrest
      cases hupdate : update db ps anno t.toTimes t'.toTimes with
      | error e =>
        rw [hupdate] at hrest
        cases hrest
      | ok ps₁ =>
        rw [hupdate] at hrest
        obtain rfl : ps₁ = ps' := Except.ok.inj hrest
        obtain ⟨old, -, hps⟩ := Except.bind_ok_iff.mp hupdate
        dsimp only at hps
        split_ifs at hps
        · obtain rfl := Except.ok.inj hps
          exact (h.write t _).write t' _
        · obtain rfl := Except.ok.inj hps
          exact h.write t _

/-- A reader of two times. -/
def twoTimes (text : String) : Option ℤ :=
  if text = "2018-01-25T22:42:57.345Z" then some 1516920177345000000
  else if text = "2018-01-25T23:42:57.345Z" then some 1516923777345000000
  else none

/-- The later time first. -/
def outage : Request :=
  .new "a" ⟨some "2018-01-25T23:42:57.345Z", some "2018-01-25T22:42:57.345Z", some "outage", none⟩ ⟨⟨1, 1⟩, by decide⟩

theorem valid_empty : ∀ t ∈ (Members.empty : Members String).toList, validateAnnotationTagKey t.1 := nofun

def stored : Point :=
  ⟨"a", ⟨.empty, valid_empty⟩, 1516923777345000000, false, 1516920177345000000, 1, "outage"⟩

/-- A text and a tag. -/
def retold : Body := ⟨none, none, some "power cut", some (Members.empty.insert "host" "b")⟩

end Updates

end Annotations
end Chronograf
