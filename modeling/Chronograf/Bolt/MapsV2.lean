/-
# The services of the second version as maps

A service is a map from IDs to the records written last: the map changes with
the replies (`Records.after`), and the replies are those of the map
(`Records.Answers`). In a bucket that is there this is so as long as every
record that is written can be read back as it was, and no update erases what
it does not give (`Records.Good`).

Key definitions: `MapRecords`, `Records.Answers`, `Records.after`, `Records.Good`.
Key theorems: `Records.reads_iff`, `Records.represents_act_iff`,
`Records.answers_act`.
-/
import Chronograf.Bolt.RecordsV2
import Mathlib.Logic.Function.Basic

namespace Chronograf
namespace Platform

open Marshal

/-- Records with what the map is to make of an update, which records the JSON
keeps, and which updates do what they are to do. -/
class MapRecords (α : Type) (υ : outParam Type) extends Records α υ where
  given : υ → α → α
  Kept : α → Prop
  Keeps : υ → α → Prop
  notFound_ne : Records.notFound α ≠ .unmarshal
  id_withID : ∀ i d, id (withID i d) = i
  id_updated : ∀ upd d, id (updated upd d) = id d
  id_given : ∀ upd d, id (given upd d) = id d
  kept_withID_iff : ∀ i d, stored (withID i d) = withID i d ↔ Kept d
  kept_iff : ∀ d, stored d = d ↔ Kept d
  keeps_iff : ∀ upd d, stored (updated upd d) = given upd d ↔ Keeps upd d
  updated_eq : ∀ upd d, Keeps upd d → updated upd d = given upd d

namespace Records

/-- The live records. -/
abbrev Live (α : Type) := String → Option α

variable {α υ : Type} [MapRecords α υ] {b b' : Bucket Entry} {m : Live α}

open MapRecords (given Kept Keeps)

/-- The map after a call that had the reply. A call that failed changes nothing. -/
def after (m : Live α) : Call α υ → Reply α → Live α
  | .create d, .created i => Function.update m i (some (withID i d))
  | .put d, .done => Function.update m (id d) (some d)
  | .update i upd, .found _ => Function.update m i ((m i).map (given upd))
  | .delete i, .done => Function.update m i none
  | _, _ => m

/-- The replies a map gives. A record may be refused when it is written; none is
a panic. -/
def Answers (m : Live α) : Call α υ → Reply α → Prop
  | .create _, r => (∃ i, r = .created i) ∨ ∃ e, r = .failed (.error e)
  | .put _, r => r = .done ∨ ∃ e, r = .failed (.error e)
  | .update i upd, r =>
    match m i with
    | none => r = .failed (.error (notFound α))
    | some d => r = .found (given upd d) ∨ ∃ e, r = .failed (.error e)
  | .delete i, r =>
    match m i with
    | none => r = .failed (.error (notFound α))
    | some _ => r = .done
  | .findByID i, r =>
    match m i with
    | none => r = .failed (.error (notFound α))
    | some d => r = .found d
  | .find (some i), r =>
    match m i with
    | none => r = .failed (.error (notFound α))
    | some d => r = .list [d]
  | .find none, r => ∃ ds, r = .list ds ∧ (ds.map id).Nodup ∧ ∀ d, d ∈ ds ↔ ∃ i, m i = some d

/-- Reading shows the map: every ID, and all records. -/
def Reads (b : Option (Bucket Entry)) (m : Live α) : Prop :=
  (∀ i, Answers m (.findByID i : Call α υ) (step b (.findByID i : Call α υ)).1) ∧
    Answers m (.find none : Call α υ) (step b (.find none : Call α υ)).1

/-- A key a bucket takes. -/
def ValidKey (i : String) : Prop := i ≠ "" ∧ i.utf8ByteSize ≤ maxKeySize

/-- What is written can be read back, and an update changes what it gives and no more. -/
def Good (m : Live α) : Call α υ → Prop
  | .create d => Kept d
  | .put d => ValidKey (id d) → Kept d
  | .update i upd => ValidKey i → ∀ d, m i = some d → Keeps upd d
  | _ => True

/-- The records of a bucket, each under its own ID. -/
def contents (b : Option (Bucket Entry)) : Live α := fun i =>
  (b.bind fun b => b.get i).bind fun e => (unmarshal e.doc : Option α).filter fun d => id d = i

variable (α) in
/-- Every record of the bucket can be read and has the ID it is under. -/
def Readable (b : Option (Bucket Entry)) : Prop :=
  ∀ b' ∈ b, ∀ e ∈ b'.recs, ∃ d : α, unmarshal e.doc = some d ∧ id d = e.id

/-! ### The map a bucket represents -/

/-- Under each ID the bucket has the record of the map, as JSON. -/
def Represents (b : Bucket Entry) (m : Live α) : Prop := ∀ i, ((b.get i).map fun e => unmarshal e.doc) = (m i).map some

/-- The records of the map are under their IDs. -/
def InPlace (m : Live α) : Prop := ∀ i d, m i = some d → id d = i

theorem Represents.findByID (h : Represents b m) (i : String) :
    (findByID b i : Except Failure α) = match m i with
      | none => .error (.error (notFound α))
      | some d => .ok d := by
  have hi := h i
  unfold Records.findByID
  cases hb : b.get i with
  | none =>
    cases hm : m i with
    | none => rfl
    | some d => simp [hb, hm] at hi
  | some e =>
    cases hm : m i with
    | none => simp [hb, hm] at hi
    | some d =>
      have hd : unmarshal e.doc = some d := by simpa [hb, hm] using hi
      simp [hd]

theorem Represents.record (h : Represents b m) {e : Entry} (he : e ∈ b.recs) :
    ∃ d, (unmarshal e.doc : Option α) = some d ∧ m e.id = some d := by
  have hi := h e.id
  rw [show b.get e.id = some e from Bucket.get_of_mem he] at hi
  cases hm : m e.id with
  | none => simp [hm] at hi
  | some d => exact ⟨d, by simpa [hm] using hi, rfl⟩

/-- All records are found, in the order of the bucket. -/
theorem Represents.forEach (h : Represents b m) (hm : InPlace m) :
    ∃ ds : List α, Records.forEach b = .ok ds ∧ (ds.map id).Nodup ∧ ∀ d, d ∈ ds ↔ ∃ i, m i = some d := by
  let read (e : Entry) : α := (unmarshal e.doc).getD zero
  have hread : ∀ e ∈ b.recs, unmarshal e.doc = some (read e) ∧ m e.id = some (read e) := by
    intro e he
    obtain ⟨d, hd, hmd⟩ := h.record he
    simp [read, hd, hmd]
  have hmapM : ∀ l : List Entry, (∀ e ∈ l, unmarshal e.doc = some (read e)) →
      l.mapM (fun e => (unmarshal e.doc : Option α)) = some (l.map read) := by
    intro l hl
    induction l with
    | nil => rfl
    | cons e l ih =>
      rw [List.mapM_cons, hl e List.mem_cons_self, ih fun e he => hl e (List.mem_cons_of_mem _ he)]
      rfl
  refine ⟨b.recs.map read, ?_, ?_, fun d => ?_⟩
  · rw [Records.forEach, hmapM _ fun e he => (hread e he).1]
  · have hids : (b.recs.map read).map id = b.recs.map key := by
      rw [List.map_map]
      exact List.map_congr_left fun e he => hm _ _ (hread e he).2
    rw [hids]
    exact b.nodup_keys
  · rw [List.mem_map]
    constructor
    · rintro ⟨e, he, rfl⟩
      exact ⟨e.id, (hread e he).2⟩
    · rintro ⟨i, hi⟩
      have hget := h i
      cases hb : b.get i with
      | none => simp [hb, hi] at hget
      | some e =>
        obtain ⟨he, hk⟩ := Bucket.get_some hb
        refine ⟨e, he, ?_⟩
        have hme := (hread e he).2
        rw [← key_entry, hk, hi] at hme
        exact (Option.some.inj hme).symm

/-- Reading shows the map that the bucket represents. -/
theorem reads_iff (hm : InPlace m) {o : Option (Bucket Entry)} : Reads o m ↔ ∃ b, o = some b ∧ Represents b m := by
  constructor
  · rintro ⟨hfind, -⟩
    cases o with
    | none =>
      have h := hfind ""
      cases hempty : m "" <;> simp [Answers, step, deref, hempty] at h
    | some b =>
      refine ⟨b, rfl, fun i => ?_⟩
      have h := hfind i
      simp only [Answers, step, deref, act, findByID] at h
      cases hb : b.get i with
      | none => cases hi : m i <;> simp [hb, hi] at h ⊢
      | some e =>
        have hne : Error.unmarshal ≠ notFound α := (MapRecords.notFound_ne (α := α)).symm
        cases hd : (unmarshal e.doc : Option α) <;> cases hi : m i <;> simp [hb, hd, hi] at h ⊢
        · exact absurd h hne
        · exact h
  · rintro ⟨b, rfl, h⟩
    constructor
    · intro i
      simp only [Answers, step, deref, act, h.findByID]
      cases m i <;> rfl
    · obtain ⟨ds, hds, hall⟩ := h.forEach hm
      exact ⟨ds, by simp [step, deref, act, hds], hall⟩

/-! ### What a call does to them -/

theorem putEntry_cases (b : Bucket Entry) (e : Entry) :
    ValidKey e.id ∧ putEntry b e = .ok (b.put e) ∨ ¬ ValidKey e.id ∧ ∃ err, putEntry b e = .error (.error err) := by
  unfold putEntry ValidKey
  by_cases hempty : e.id.utf8ByteSize = 0
  · rw [if_pos hempty]
    exact .inr ⟨fun h => h.1 (String.utf8ByteSize_eq_zero_iff.mp hempty), _, rfl⟩
  · rw [if_neg hempty]
    have hne : e.id ≠ "" := fun h => hempty (String.utf8ByteSize_eq_zero_iff.mpr h)
    by_cases hlarge : maxKeySize < e.id.utf8ByteSize
    · rw [if_pos hlarge]
      exact .inr ⟨fun h => absurd h.2 (Nat.not_le.mpr hlarge), _, rfl⟩
    · rw [if_neg hlarge]
      exact .inl ⟨⟨hne, Nat.not_lt.mp hlarge⟩, rfl⟩

/-- A record is written: the bucket represents the map with it if it can be read back. -/
theorem Represents.put_iff (h : Represents b m) {e : Entry} (he : ValidKey e.id) (d : α) :
    Represents (b.put e) (Function.update m e.id (some d)) ↔ (unmarshal e.doc : Option α) = some d := by
  have hblank : ¬ blank (key e) := fun hb => he.1 (of_decide_eq_true hb)
  constructor
  · intro h'
    have hi := h' e.id
    rw [show (b.put e).get e.id = some e from Bucket.get_put_self hblank, Function.update_self] at hi
    exact Option.some.inj hi
  · intro hd i
    rw [Bucket.get_put hblank, key_entry]
    by_cases hi : i = e.id
    · subst hi
      simp [hd]
    · rw [if_neg hi, Function.update_of_ne hi]
      exact h i

theorem Represents.delete (h : Represents b m) (i : String) : Represents (b.delete i) (Function.update m i none) := by
  intro j
  rw [Bucket.get_delete]
  by_cases hj : j = i
  · subst hj
    simp
  · rw [if_neg hj, Function.update_of_ne hj]
    exact h j

theorem InPlace.update (hm : InPlace m) {i : String} {o : Option α} (ho : ∀ d, o = some d → id d = i) :
    InPlace (Function.update m i o) := by
  intro j d hj
  by_cases h : j = i
  · subst h
    rw [Function.update_self] at hj
    exact ho d hj
  · rw [Function.update_of_ne h] at hj
    exact hm j d hj

/-- After any call and reply the records are under their IDs. -/
theorem InPlace.after (hm : InPlace m) (c : Call α υ) (r : Reply α) : InPlace (after m c r) := by
  unfold Records.after
  split
  · refine hm.update fun x hx => ?_
    obtain rfl := Option.some.inj hx
    exact MapRecords.id_withID _ _
  · refine hm.update fun x hx => ?_
    obtain rfl := Option.some.inj hx
    rfl
  · refine hm.update fun x hx => ?_
    obtain ⟨d, hd, rfl⟩ := Option.map_eq_some_iff.mp hx
    exact (MapRecords.id_given _ _).trans (hm _ _ hd)
  · exact hm.update fun x hx => nomatch hx
  · exact hm

theorem unmarshal_marshal_eq_iff {d d' : α} : (unmarshal (marshal d) : Option α) = some d' ↔ stored d = d' := by
  rw [unmarshal_marshal, Option.some.injEq]

/-- The text of a number of the sequence is a key. -/
theorem validKey_itoa (n : ℕ) : ValidKey (itoa n) := by
  have hbytes : ∀ cs : List Char, String.utf8Len cs ≤ 4 * cs.length := by
    intro cs
    induction cs with
    | nil => exact Nat.le_refl 0
    | cons c cs ih =>
      have hc : c.utf8Size ≤ 4 := c.utf8Size_le_four
      rw [String.utf8Len_cons, List.length_cons]
      omega
  have hsize : ∀ k : ℕ, k ≤ 2 ^ 63 → (Nat.repr k).utf8ByteSize ≤ 80 := by
    intro k hk
    have hlen : (Nat.toDigits 10 k).length ≤ 20 :=
      (Nat.length_toDigits_le_iff (by decide) (by decide)).mpr (by omega)
    have hle := hbytes (Nat.toDigits 10 k)
    rw [Nat.repr_eq_ofList_toDigits, String.utf8ByteSize_ofList]
    omega
  have hhigh : (Int64.ofNat n).toInt < 2 ^ 63 := Int64.toInt_lt _
  have hlow : -2 ^ 63 ≤ (Int64.ofNat n).toInt := Int64.le_toInt _
  rw [itoa, Int.repr_eq_if]
  split_ifs
  · refine ⟨by simp, (hsize _ (by omega)).trans (by decide)⟩
  · refine ⟨fun h => ?_, ?_⟩
    · have hsizes := congrArg String.utf8ByteSize h
      rw [String.utf8ByteSize_append] at hsizes
      exact absurd hsizes (by simp [show "-".utf8ByteSize = 1 from rfl])
    · have hle := hsize (-(Int64.ofNat n).toInt).toNat (by omega)
      rw [String.utf8ByteSize_append, show "-".utf8ByteSize = 1 from rfl]
      exact (Nat.add_le_add_left hle 1).trans (by decide)

/-- A record with an ID that is a key, written. -/
theorem put_of_validKey {d : α} (h : ValidKey (id d)) : put b d = .ok (b.put ⟨id d, marshal d⟩) := by
  rcases putEntry_cases b ⟨id d, marshal d⟩ with ⟨-, hput⟩ | ⟨hkey, -⟩
  · exact hput
  · exact absurd h hkey

theorem put_of_not_validKey {d : α} (h : ¬ ValidKey (id d)) : ∃ err, put b d = .error (.error err) := by
  rcases putEntry_cases b ⟨id d, marshal d⟩ with ⟨hkey, -⟩ | ⟨-, hput⟩
  · exact absurd hkey h
  · exact hput

theorem act_create (b : Bucket Entry) (d : α) : act b (.create d : Call α υ) =
    (.created (itoa (b.seq + 1)),
      b.nextSequence.put ⟨itoa (b.seq + 1), marshal (withID (itoa (b.seq + 1)) d)⟩) := by
  have hid : id (withID (itoa (b.seq + 1)) d) = itoa (b.seq + 1) := MapRecords.id_withID _ _
  have hput := put_of_validKey (b := b.nextSequence) (hid ▸ validKey_itoa _)
  rw [hid] at hput
  simp only [act, create, Bucket.nextSequence_seq]
  rw [hput]
  rfl

theorem Represents.update (h : Represents b m) (i : String) (upd : υ) : Records.update b i upd = match m i with
    | none => .error (.error (notFound α))
    | some d => (put b (updated upd d)).map fun b' => (updated upd d, b') := by
  unfold Records.update
  rw [h.findByID]
  cases m i with
  | none => rfl
  | some d =>
    show (put b (updated upd d) >>= fun b' => pure (updated upd d, b')) =
      (put b (updated upd d)).map fun b' => (updated upd d, b')
    cases put b (updated upd d) <;> rfl

/-- After a call the bucket represents the map if and only if the call is a good one. -/
theorem represents_act_iff (h : Represents b m) (hm : InPlace m) (c : Call α υ) :
    Represents (act b c).2 (after m c (act b c).1) ↔ Good m c := by
  cases c with
  | create d =>
    have hseq : Represents b.nextSequence m := h
    rw [act_create]
    show Represents _ (Function.update m _ (some _)) ↔ Kept d
    rw [hseq.put_iff (validKey_itoa _), unmarshal_marshal_eq_iff]
    exact MapRecords.kept_withID_iff _ _
  | put d =>
    by_cases hkey : ValidKey (id d)
    · simp only [act, put_of_validKey hkey]
      show Represents _ (Function.update m _ (some _)) ↔ (ValidKey (id d) → Kept d)
      rw [h.put_iff hkey, unmarshal_marshal_eq_iff, MapRecords.kept_iff]
      exact ⟨fun hk _ => hk, fun hk => hk hkey⟩
    · obtain ⟨err, hput⟩ := put_of_not_validKey (b := b) hkey
      simp only [act, hput]
      exact iff_of_true h fun hk => absurd hk hkey
  | update i upd =>
    simp only [act, h.update]
    cases hi : m i with
    | none => exact iff_of_true h fun _ d hd => nomatch hi.symm.trans hd
    | some d =>
      have hid : id (updated upd d) = i := (MapRecords.id_updated _ _).trans (hm _ _ hi)
      have hgood : Good m (.update i upd : Call α υ) ↔ (ValidKey i → Keeps upd d) := by
        simp [Good, hi]
      rw [hgood]
      by_cases hkey : ValidKey i
      · simp only [put_of_validKey (hid ▸ hkey : ValidKey (id (updated upd d))), Except.map, hid]
        show Represents _ (Function.update m i ((m i).map _)) ↔ _
        rw [hi, Option.map_some, h.put_iff hkey, unmarshal_marshal_eq_iff, MapRecords.keeps_iff]
        exact ⟨fun hk _ => hk, fun hk => hk hkey⟩
      · obtain ⟨err, hput⟩ := put_of_not_validKey (b := b) (hid ▸ hkey : ¬ ValidKey (id (updated upd d)))
        simp only [hput, Except.map]
        exact iff_of_true h fun hk => absurd hk hkey
  | delete i =>
    refine iff_of_true ?_ trivial
    simp only [act, delete, h.findByID]
    cases hi : m i with
    | none => exact h
    | some d => exact h.delete i
  | findByID i =>
    refine iff_of_true ?_ trivial
    simp only [act, h.findByID]
    cases m i <;> exact h
  | find filter =>
    refine iff_of_true ?_ trivial
    cases filter with
    | none =>
      obtain ⟨ds, hds, -⟩ := h.forEach hm
      simp only [act, hds]
      exact h
    | some i =>
      simp only [act, h.findByID]
      cases m i <;> exact h

/-- A good call is answered as the map would. -/
theorem answers_act (h : Represents b m) (hm : InPlace m) {c : Call α υ} (hc : Good m c) : Answers m c (act b c).1 := by
  cases c with
  | create d =>
    rw [act_create]
    exact .inl ⟨_, rfl⟩
  | put d =>
    by_cases hkey : ValidKey (id d)
    · simp only [act, put_of_validKey hkey]
      exact .inl rfl
    · obtain ⟨err, hput⟩ := put_of_not_validKey (b := b) hkey
      simp only [act, hput]
      exact .inr ⟨err, rfl⟩
  | update i upd =>
    simp only [act, h.update, Answers]
    cases hi : m i with
    | none => rfl
    | some d =>
      have hid : id (updated upd d) = i := (MapRecords.id_updated _ _).trans (hm _ _ hi)
      by_cases hkey : ValidKey i
      · simp only [put_of_validKey (hid ▸ hkey : ValidKey (id (updated upd d))), Except.map]
        exact .inl (congrArg Reply.found (MapRecords.updated_eq _ _ (hc hkey d hi)))
      · obtain ⟨err, hput⟩ := put_of_not_validKey (b := b) (hid ▸ hkey : ¬ ValidKey (id (updated upd d)))
        simp only [hput, Except.map]
        exact .inr ⟨err, rfl⟩
  | delete i =>
    simp only [act, delete, h.findByID, Answers]
    cases m i <;> rfl
  | findByID i =>
    simp only [act, h.findByID, Answers]
    cases m i <;> rfl
  | find filter =>
    cases filter with
    | none =>
      obtain ⟨ds, hds, hall⟩ := h.forEach hm
      simp only [act, hds]
      exact ⟨ds, rfl, hall⟩
    | some i =>
      simp only [act, h.findByID, Answers]
      cases m i <;> rfl

/-- At first a bucket represents its contents if all of it can be read. -/
theorem represents_contents_iff : Represents b (contents (some b) : Live α) ↔ Readable α (some b) := by
  have hcontents : ∀ i, (contents (some b) : Live α) i =
      (b.get i).bind fun e => (unmarshal e.doc : Option α).filter fun d => id d = i := fun i => rfl
  constructor
  · rintro h _ ⟨⟩ e he
    obtain ⟨d, hd, hmd⟩ := h.record he
    rw [hcontents, show b.get e.id = some e from Bucket.get_of_mem he] at hmd
    obtain ⟨hd', hid⟩ := Option.filter_eq_some_iff.mp hmd
    exact ⟨d, hd, of_decide_eq_true hid⟩
  · intro h i
    rw [hcontents]
    cases hb : b.get i with
    | none => rfl
    | some e =>
      obtain ⟨he, rfl⟩ := Bucket.get_some hb
      obtain ⟨d, hd, hid⟩ := h b rfl e he
      simp [hd, hid]

theorem inPlace_contents (o : Option (Bucket Entry)) : InPlace (contents o : Live α) := by
  intro i d h
  obtain ⟨e, -, he⟩ := Option.bind_eq_some_iff.mp h
  exact of_decide_eq_true (Option.filter_eq_some_iff.mp he).2

/-- Reading goes on showing the map after a call if and only if the call is a good one. -/
theorem reads_step_iff {o : Option (Bucket Entry)} (hm : InPlace m) (ho : Reads o m) (c : Call α υ) :
    Reads (step o c).2 (after m c (step o c).1) ↔ Good m c := by
  obtain ⟨b, rfl, hb⟩ := (reads_iff hm).mp ho
  rw [reads_iff (hm.after _ _), ← represents_act_iff hb hm c]
  constructor
  · rintro ⟨_, ⟨⟩, h⟩
    exact h
  · exact fun h => ⟨_, rfl, h⟩

theorem answers_step {o : Option (Bucket Entry)} (hm : InPlace m) (ho : Reads o m) {c : Call α υ} (hc : Good m c) :
    Answers m c (step o c).1 := by
  obtain ⟨b, rfl, hb⟩ := (reads_iff hm).mp ho
  exact answers_act hb hm hc

end Records
end Platform
end Chronograf
