/-
# Buckets: records in key order, with a sequence

A bucket holds at most one record under a key and lists its records in key
order. It refuses the blank key, and it hands out numbers from a sequence
that only grows, also when records are deleted. A bucket whose records were
all stored under a number of its sequence (`Issued`) has room under the next
one (`Issued.get_next`). A function on records that leaves their keys alone can be
applied to a whole bucket (`through`), before or after the operations.

Key definitions: `Bucket`, `Bucket.get`, `Bucket.put`, `Bucket.delete`,
`Bucket.nextSequence`, `Bucket.UniqueBy`, `Bucket.All`, `Bucket.Issued`,
`Bucket.through`.
Key theorems: `Bucket.mem_iff_get`, `Bucket.get_put`, `Bucket.get_delete`,
`Bucket.ext_get`, `Bucket.uniqueBy_put_iff`, `Bucket.through_put`,
`Bucket.through_delete`, `Bucket.through_sweep`.
-/
import Mathlib.Data.List.Sort
import Mathlib.Data.Option.Basic
import Mathlib.Order.Lattice

/-- Keys a bucket can give out from its sequence. -/
class Sequenced (κ : Type) where
  ofSeq : ℕ → κ
  blank : κ → Bool
  ofSeq_injective : Function.Injective ofSeq
  not_blank_ofSeq : ∀ n, ¬ blank (ofSeq n)

/-- Records that know their key. -/
class Keyed (ρ : Type) (κ : outParam Type) where
  key : ρ → κ

export Sequenced (ofSeq blank)
export Keyed (key)

/-- Records in key order, and the last number of the sequence. -/
structure Bucket (ρ : Type) {κ : Type} [LinearOrder κ] [Sequenced κ] [Keyed ρ κ] where
  recs : List ρ
  seq : ℕ
  sorted : recs.Pairwise fun a b => key a < key b
  keyed : ∀ r ∈ recs, ¬ blank (key r)

namespace Bucket

variable {ρ κ : Type} [LinearOrder κ] [Sequenced κ] [Keyed ρ κ] {b b' : Bucket ρ} {r r' : ρ} {k : κ}

theorem ext (h1 : b.recs = b'.recs) (h2 : b.seq = b'.seq) : b = b' := by
  cases b; cases b'; simp_all

/-- The bucket nobody has used. -/
def empty : Bucket ρ := ⟨[], 0, .nil, by simp⟩

/-- The record under `k`. -/
def get (b : Bucket ρ) (k : κ) : Option ρ := b.recs.find? fun r => key r = k

/-- The record, in the place of the one under its key. A blank key is refused. -/
def put (b : Bucket ρ) (r : ρ) : Bucket ρ :=
  if h : blank (key r) then b
  else
    { recs := b.recs.filter (key · < key r) ++ r :: b.recs.filter (key r < key ·)
      seq := b.seq
      sorted := by
        refine List.pairwise_append.mpr ⟨b.sorted.filter _, List.pairwise_cons.mpr
          ⟨fun a ha => by simpa using (List.mem_filter.mp ha).2, b.sorted.filter _⟩, fun x hx y hy => ?_⟩
        have hxr : key x < key r := by simpa using (List.mem_filter.mp hx).2
        rcases List.mem_cons.mp hy with rfl | hy
        · exact hxr
        · exact hxr.trans (by simpa using (List.mem_filter.mp hy).2)
      keyed := fun x hx => by
        simp only [List.mem_append, List.mem_cons, List.mem_filter] at hx
        rcases hx with ⟨hx, -⟩ | rfl | ⟨hx, -⟩
        · exact b.keyed x hx
        · exact h
        · exact b.keyed x hx }

/-- Without the record under `k`. -/
def delete (b : Bucket ρ) (k : κ) : Bucket ρ where
  recs := b.recs.filter fun r => key r ≠ k
  seq := b.seq
  sorted := b.sorted.filter _
  keyed := fun r hr => b.keyed r (List.mem_filter.mp hr).1

/-- Each record that satisfies `p` replaced by `f` of it, one after the other. -/
def sweep (b : Bucket ρ) (p : ρ → Bool) (f : ρ → ρ) : Bucket ρ :=
  b.recs.foldl (fun b r => if p r then b.put (f r) else b) b

/-- One number of the sequence taken. -/
def nextSequence (b : Bucket ρ) : Bucket ρ := { b with seq := b.seq + 1 }

/-! ### Lookup -/

theorem nodup_keys (b : Bucket ρ) : (b.recs.map key).Nodup :=
  List.pairwise_map.mpr (b.sorted.imp fun h => h.ne)

theorem eq_of_key (hr : r ∈ b.recs) (hr' : r' ∈ b.recs) (h : key r = key r') : r = r' :=
  List.inj_on_of_nodup_map b.nodup_keys hr hr' h

/-- A stored record is of the kind `p` if one of the kind has its key. -/
theorem key_mem_keys (hr : r ∈ b.recs) (p : ρ → Bool) : key r ∈ (b.recs.filter p).map key ↔ p r := by
  rw [List.mem_map]
  constructor
  · rintro ⟨x, hx, hxr⟩
    obtain ⟨hx, hp⟩ := List.mem_filter.mp hx
    rwa [← eq_of_key hx hr hxr]
  · exact fun hp => ⟨r, List.mem_filter.mpr ⟨hr, hp⟩, rfl⟩

theorem nodup_keys_filter (p : ρ → Bool) : ((b.recs.filter p).map key).Nodup :=
  b.nodup_keys.sublist (List.filter_sublist.map _)

theorem get_some (h : b.get k = some r) : r ∈ b.recs ∧ key r = k :=
  ⟨List.mem_of_find?_eq_some h, by simpa using List.find?_some h⟩

theorem get_none : b.get k = none ↔ ∀ r ∈ b.recs, key r ≠ k := by
  simp [get, List.find?_eq_none]

/-- The stored records are the ones found under their keys. -/
theorem mem_iff_get : r ∈ b.recs ↔ b.get (key r) = some r := by
  constructor
  · intro hr
    cases h : b.get (key r) with
    | none => exact absurd rfl (get_none.mp h r hr)
    | some r' =>
      obtain ⟨hr', hk⟩ := get_some h
      rw [eq_of_key hr' hr hk]
  · exact fun h => (get_some h).1

theorem get_of_mem (hr : r ∈ b.recs) : b.get (key r) = some r := mem_iff_get.mp hr

theorem get_eq_some : b.get k = some r ↔ r ∈ b.recs ∧ key r = k :=
  ⟨get_some, fun ⟨h, hk⟩ => hk ▸ get_of_mem h⟩

/-- Two functions agree on what is found under any key if they agree on what is
stored. -/
theorem map_get_eq_iff {f g : ρ → ρ} : (∀ k, (b.get k).map f = (b.get k).map g) ↔ ∀ r ∈ b.recs, f r = g r := by
  constructor
  · intro h r hr
    have hk := h (key r)
    rw [get_of_mem hr] at hk
    exact Option.some.inj hk
  · intro h k
    cases hget : b.get k with
    | none => rfl
    | some r => exact congrArg some (h r (get_some hget).1)

theorem not_blank_of_get (h : b.get k = some r) : ¬ blank (key r) := b.keyed r (get_some h).1

@[simp] theorem get_blank (h : blank k) : b.get k = none :=
  get_none.mpr fun r hr hk => b.keyed r hr (hk ▸ h)

@[simp] theorem get_empty : (empty : Bucket ρ).get k = none := rfl

/-- A bucket is what its lookups and its sequence show of it. -/
theorem ext_get (h1 : ∀ k, b.get k = b'.get k) (h2 : b.seq = b'.seq) : b = b' := by
  have hirr : Std.Irrefl (fun x y : ρ => key x < key y) := ⟨fun x => lt_irrefl _⟩
  have hanti : Std.Antisymm (fun x y : ρ => key x < key y) :=
    ⟨fun x y hxy hyx => absurd hxy hyx.asymm⟩
  refine ext (b.sorted.eq_of_mem_iff b'.sorted fun r => ?_) h2
  rw [mem_iff_get, mem_iff_get, h1]

/-- The records of one bucket are those of another that satisfy `p`, each
changed by `f`, if this is what every lookup shows. -/
theorem recs_eq_iff {p : ρ → Bool} {f : ρ → ρ} (hf : ∀ r, key (f r) = key r) :
    b'.recs = (b.recs.filter p).map f ↔ ∀ k, b'.get k = ((b.get k).filter p).map f := by
  have hmem : ∀ r, r ∈ (b.recs.filter p).map f ↔ ((b.get (key r)).filter p).map f = some r := by
    intro r
    rw [List.mem_map, Option.map_eq_some_iff]
    refine exists_congr fun x => ?_
    rw [List.mem_filter, Option.filter_eq_some_iff, get_eq_some]
    constructor
    · rintro ⟨⟨hx, hp⟩, rfl⟩
      exact ⟨⟨⟨hx, (hf x).symm⟩, hp⟩, rfl⟩
    · rintro ⟨⟨⟨hx, -⟩, hp⟩, hxr⟩
      exact ⟨⟨hx, hp⟩, hxr⟩
  constructor
  · intro h k
    refine Option.ext fun r => ?_
    rw [get_eq_some, h, hmem]
    constructor
    · rintro ⟨hr, rfl⟩
      exact hr
    · intro hr
      obtain ⟨x, hx, rfl⟩ := Option.map_eq_some_iff.mp hr
      have hk : key (f x) = k := (hf x).trans (get_eq_some.mp (Option.filter_eq_some_iff.mp hx).1).2
      rw [hk]
      exact ⟨hr, rfl⟩
  · intro h
    have hirr : Std.Irrefl (fun x y : ρ => key x < key y) := ⟨fun x => lt_irrefl _⟩
    have hanti : Std.Antisymm (fun x y : ρ => key x < key y) :=
      ⟨fun x y hxy hyx => absurd hxy hyx.asymm⟩
    have hsorted : ((b.recs.filter p).map f).Pairwise fun x y => key x < key y := by
      refine List.pairwise_map.mpr ((b.sorted.filter _).imp fun hxy => ?_)
      rwa [hf, hf]
    refine b'.sorted.eq_of_mem_iff hsorted fun r => ?_
    rw [mem_iff_get, h, hmem]

/-! ### Writing -/

@[simp] theorem put_seq : (b.put r).seq = b.seq := by
  unfold put; split <;> rfl

@[simp] theorem delete_seq : (b.delete k).seq = b.seq := rfl

@[simp] theorem nextSequence_seq : b.nextSequence.seq = b.seq + 1 := rfl

@[simp] theorem nextSequence_recs : b.nextSequence.recs = b.recs := rfl

@[simp] theorem get_nextSequence : b.nextSequence.get k = b.get k := rfl

theorem put_recs (hr : ¬ blank (key r)) :
    (b.put r).recs = b.recs.filter (key · < key r) ++ r :: b.recs.filter (key r < key ·) := by
  rw [put, dif_neg hr]

theorem mem_put (hr : ¬ blank (key r)) : r' ∈ (b.put r).recs ↔ r' = r ∨ r' ∈ b.recs ∧ key r' ≠ key r := by
  simp only [put_recs hr, List.mem_append, List.mem_cons, List.mem_filter, decide_eq_true_eq,
    ne_iff_lt_or_gt]
  tauto

theorem mem_delete : r ∈ (b.delete k).recs ↔ r ∈ b.recs ∧ key r ≠ k := by simp [delete]

theorem get_put (hr : ¬ blank (key r)) : (b.put r).get k = if k = key r then some r else b.get k := by
  by_cases hk : k = key r
  · subst hk
    rw [if_pos rfl]
    exact get_of_mem ((mem_put hr).mpr (.inl rfl))
  · rw [if_neg hk]
    refine Option.ext fun x => ?_
    rw [get_eq_some, get_eq_some, mem_put hr]
    constructor
    · rintro ⟨rfl | ⟨hx, -⟩, rfl⟩
      · exact absurd rfl hk
      · exact ⟨hx, rfl⟩
    · rintro ⟨hx, rfl⟩
      exact ⟨.inr ⟨hx, hk⟩, rfl⟩

theorem get_put_self (hr : ¬ blank (key r)) : (b.put r).get (key r) = some r := by
  rw [get_put hr, if_pos rfl]

theorem get_put_ne (hk : k ≠ key r) : (b.put r).get k = b.get k := by
  by_cases hr : blank (key r)
  · simp [put, hr]
  · rw [get_put hr, if_neg hk]

theorem get_delete {k' : κ} : (b.delete k).get k' = if k' = k then none else b.get k' := by
  refine Option.ext fun x => ?_
  by_cases hk : k' = k
  · subst hk
    simp [get_eq_some, mem_delete]
  · rw [if_neg hk, get_eq_some, get_eq_some, mem_delete]
    constructor
    · exact fun ⟨⟨hx, _⟩, hxk⟩ => ⟨hx, hxk⟩
    · rintro ⟨hx, rfl⟩
      exact ⟨⟨hx, hk⟩, rfl⟩

/-- Storing what is stored changes nothing. -/
theorem put_of_get (h : b.get (key r) = some r) : b.put r = b := by
  refine ext_get (fun k => ?_) (by simp)
  rw [get_put (not_blank_of_get h)]
  split_ifs with hk
  · rw [hk, h]
  · rfl

/-! ### The first record of a kind -/

section Find

variable {p : ρ → Bool} {x : ρ}

/-- What comes before the first record of a kind is not of the kind. -/
theorem not_of_lt_find (h : b.recs.find? p = some x) (hr : r ∈ b.recs) (hlt : key r < key x) : ¬ p r := by
  obtain ⟨-, as, bs, hrecs, has⟩ := List.find?_eq_some_iff_append.mp h
  have hsorted := b.sorted
  rw [hrecs, List.pairwise_append, List.pairwise_cons] at hsorted
  rw [hrecs, List.mem_append, List.mem_cons] at hr
  rcases hr with hr | rfl | hr
  · simpa using has r hr
  · exact absurd hlt (lt_irrefl _)
  · exact absurd hlt (hsorted.2.1.1 r hr).asymm

/-- A record of the kind, in the place of the first one, is the first one. -/
theorem find_put_of_key (h : b.recs.find? p = some x) (hk : key r = key x) (hp : p r) :
    (b.put r).recs.find? p = some r := by
  have hx : x ∈ b.recs := List.mem_of_find?_eq_some h
  have hbefore : (b.recs.filter (key · < key r)).find? p = none := by
    rw [List.find?_eq_none]
    intro y hy
    rw [List.mem_filter, hk, decide_eq_true_eq] at hy
    exact not_of_lt_find h hy.1 hy.2
  rw [put_recs (by rw [hk]; exact b.keyed x hx), List.find?_append, hbefore, List.find?_cons_of_pos hp]
  rfl

/-- The first record of its kind. -/
theorem find_put_of_none (h : b.recs.find? p = none) (hr : ¬ blank (key r)) (hp : p r) :
    (b.put r).recs.find? p = some r := by
  have hbefore : (b.recs.filter (key · < key r)).find? p = none := by
    rw [List.find?_eq_none] at h ⊢
    exact fun y hy => h y (List.mem_filter.mp hy).1
  rw [put_recs hr, List.find?_append, hbefore, List.find?_cons_of_pos hp]
  rfl

/-- A record stored behind the first one of a kind leaves it the first one. -/
theorem find_put_of_lt (h : b.recs.find? p = some x) (hlt : key x < key r) :
    (b.put r).recs.find? p = some x := by
  by_cases hr : blank (key r)
  · simpa [put, hr] using h
  have hbefore : (b.recs.filter (key · < key r)).find? p = some x := by
    obtain ⟨hp, as, bs, hrecs, has⟩ := List.find?_eq_some_iff_append.mp h
    rw [hrecs, List.filter_append, List.filter_cons_of_pos (by simpa using hlt), List.find?_append]
    have hnone : (as.filter (key · < key r)).find? p = none := by
      rw [List.find?_eq_none]
      intro y hy
      simpa using has y (List.mem_filter.mp hy).1
    rw [hnone, List.find?_cons_of_pos hp]
    rfl
  rw [put_recs hr, List.find?_append, hbefore]
  rfl

end Find

/-! ### Records told apart by a value -/

section Unique

variable {β : Type} {f : ρ → β}

/-- No two records have the same value of `f`. -/
def UniqueBy (f : ρ → β) (b : Bucket ρ) : Prop := ∀ x ∈ b.recs, ∀ y ∈ b.recs, f x = f y → x = y

instance [DecidableEq ρ] [DecidableEq β] : Decidable (b.UniqueBy f) :=
  inferInstanceAs (Decidable (∀ x ∈ b.recs, ∀ y ∈ b.recs, f x = f y → x = y))

theorem uniqueBy_empty : (empty : Bucket ρ).UniqueBy f := by simp [UniqueBy, empty]

/-- Storing a record keeps `f` apart if and only if no record under another key
has its value. -/
theorem uniqueBy_put_iff (hb : b.UniqueBy f) (hr : ¬ blank (key r)) :
    (b.put r).UniqueBy f ↔ ∀ y ∈ b.recs, key y ≠ key r → f y ≠ f r := by
  constructor
  · intro h y hy hne heq
    have hyr : y = r := h y ((mem_put hr).mpr (.inr ⟨hy, hne⟩)) r ((mem_put hr).mpr (.inl rfl)) heq
    exact hne (congrArg key hyr)
  · intro h x hx y hy heq
    rcases (mem_put hr).mp hx with hxr | ⟨hx', hxr⟩ <;> rcases (mem_put hr).mp hy with hyr | ⟨hy', hyr⟩
    · rw [hxr, hyr]
    · exact absurd (heq.symm.trans (congrArg f hxr)) (h y hy' hyr)
    · exact absurd (heq.trans (congrArg f hyr)) (h x hx' hxr)
    · exact hb x hx' y hy' heq

theorem UniqueBy.put (hb : b.UniqueBy f) (h : ∀ y ∈ b.recs, key y ≠ key r → f y ≠ f r) : (b.put r).UniqueBy f := by
  by_cases hr : blank (key r)
  · simpa [Bucket.put, hr] using hb
  · exact (uniqueBy_put_iff hb hr).mpr h

/-- A record with the value of the one it replaces. -/
theorem UniqueBy.put_of_get (hb : b.UniqueBy f) (h : b.get (key r) = some r') (hf : f r = f r') :
    (b.put r).UniqueBy f := by
  obtain ⟨hr', hk⟩ := get_some h
  refine hb.put fun y hy hne heq => hne ?_
  rw [hb y hy r' hr' (heq.trans hf), hk]

theorem UniqueBy.delete (hb : b.UniqueBy f) : (b.delete k).UniqueBy f :=
  fun x hx y hy => hb x (mem_delete.mp hx).1 y (mem_delete.mp hy).1

end Unique

/-! ### A flag that one record may have -/

section Flag

variable {p : ρ → Bool}

/-- No two records have the flag `p`. -/
def AtMostOne (p : ρ → Bool) (b : Bucket ρ) : Prop := ∀ x ∈ b.recs, ∀ y ∈ b.recs, p x → p y → x = y

instance [DecidableEq ρ] : Decidable (b.AtMostOne p) :=
  inferInstanceAs (Decidable (∀ x ∈ b.recs, ∀ y ∈ b.recs, p x → p y → x = y))

theorem atMostOne_empty : (empty : Bucket ρ).AtMostOne p := by simp [AtMostOne, empty]

theorem AtMostOne.delete (hb : b.AtMostOne p) : (b.delete k).AtMostOne p :=
  fun x hx y hy => hb x (mem_delete.mp hx).1 y (mem_delete.mp hy).1

/-- A record is stored, and when it has the flag all others lose it. -/
theorem AtMostOne.displaced {f : ρ → ρ} (hf : ∀ x, ¬ p (f x)) (hb : b.AtMostOne p)
    (h : ∀ k, b'.get k = if k = key r then some r else if p r then (b.get k).map f else b.get k) :
    b'.AtMostOne p := by
  -- a record with the flag is the new one, or an old one beside a new one without it
  have hcases : ∀ x ∈ b'.recs, p x → x = r ∨ ¬ p r ∧ x ∈ b.recs := by
    intro x hx hpx
    have hget := get_of_mem hx
    rw [h] at hget
    by_cases hk : key x = key r
    · rw [if_pos hk, Option.some.injEq] at hget
      exact .inl hget.symm
    · rw [if_neg hk] at hget
      by_cases hpr : p r
      · rw [if_pos hpr, Option.map_eq_some_iff] at hget
        obtain ⟨y, -, rfl⟩ := hget
        exact absurd hpx (hf y)
      · rw [if_neg hpr] at hget
        exact .inr ⟨hpr, (get_some hget).1⟩
  intro x hx y hy hpx hpy
  rcases hcases x hx hpx with rfl | ⟨hpr, hxb⟩ <;> rcases hcases y hy hpy with rfl | ⟨hpr', hyb⟩
  · rfl
  · exact absurd hpx hpr'
  · exact absurd hpy hpr
  · exact hb x hxb y hyb hpx hpy

end Flag

/-! ### Sweeping -/

section Sweep

variable {p : ρ → Bool} {f : ρ → ρ} (hf : ∀ r, key (f r) = key r)

include hf in
/-- The sweep of a list `l` of records with distinct keys over a bucket: under
`k` there is what it makes of the record of `l` there, else what was there. -/
theorem get_foldl_put : ∀ (l : List ρ) (b : Bucket ρ), (l.map key).Nodup → (∀ r ∈ l, ¬ blank (key r)) →
    (l.foldl (fun b r => if p r then b.put (f r) else b) b).get k =
      match l.find? fun r => key r = k with
      | some r => if p r then some (f r) else b.get k
      | none => b.get k
  | [], _, _, _ => rfl
  | r :: l, b, hn, hb => by
    rw [List.map_cons, List.nodup_cons] at hn
    have ih := get_foldl_put l (if p r then b.put (f r) else b) hn.2 fun x hx => hb x (by simp [hx])
    rw [List.foldl_cons, ih]
    by_cases hk : key r = k
    · have hnone : l.find? (fun r => decide (key r = k)) = none := by
        rw [List.find?_eq_none]
        intro x hx
        simp only [decide_eq_true_eq]
        exact fun hxk => hn.1 (List.mem_map.mpr ⟨x, hx, hxk.trans hk.symm⟩)
      have hbl : ¬ blank (key (f r)) := by rw [hf]; exact hb r (by simp)
      simp only [hnone, List.find?_cons, hk, decide_true]
      by_cases hp : p r
      · rw [if_pos hp, if_pos hp, get_put hbl, hf, if_pos hk.symm]
      · rw [if_neg hp, if_neg hp]
    · have hsame : (if p r then b.put (f r) else b).get k = b.get k := by
        split
        · exact get_put_ne (by rw [hf]; exact fun h => hk h.symm)
        · rfl
      simp [hk, hsame]

include hf in
/-- A sweep rewrites each record in its place. -/
theorem get_sweep : (b.sweep p f).get k = (b.get k).map fun r => if p r then f r else r := by
  rw [sweep, get_foldl_put hf b.recs b b.nodup_keys b.keyed]
  unfold get
  cases b.recs.find? fun r => decide (key r = k) with
  | none => rfl
  | some r => by_cases hp : p r <;> simp [hp]

theorem foldl_put_seq : ∀ (l : List ρ) (b : Bucket ρ),
    (l.foldl (fun b r => if p r then b.put (f r) else b) b).seq = b.seq
  | [], _ => rfl
  | r :: l, b => by
    rw [List.foldl_cons, foldl_put_seq l]
    split <;> simp

@[simp] theorem sweep_seq : (b.sweep p f).seq = b.seq := foldl_put_seq b.recs b

end Sweep

/-! ### What all records have -/

/-- Every record satisfies `q`. -/
def All (q : ρ → Prop) (b : Bucket ρ) : Prop := ∀ r ∈ b.recs, q r

namespace All

variable {q : ρ → Prop} {p : ρ → Bool} {f : ρ → ρ}

theorem put (h : b.All q) (hr : q r) : (b.put r).All q := by
  intro x hx
  by_cases hblank : blank (key r)
  · rw [Bucket.put, dif_pos hblank] at hx
    exact h x hx
  · rcases (mem_put hblank).mp hx with rfl | ⟨hx, -⟩
    · exact hr
    · exact h x hx

theorem delete (h : b.All q) : (b.delete k).All q := fun x hx => h x (mem_delete.mp hx).1

theorem nextSequence (h : b.All q) : b.nextSequence.All q := h

theorem foldl_put (hf : ∀ x, q x → q (f x)) : ∀ (l : List ρ) {b : Bucket ρ}, (∀ x ∈ l, q x) → b.All q →
    (l.foldl (fun b x => if p x then b.put (f x) else b) b).All q
  | [], _, _, h => h
  | x :: l, b, hl, h => by
    rw [List.foldl_cons]
    refine foldl_put hf l (fun y hy => hl y (by simp [hy])) ?_
    split_ifs
    · exact h.put (hf x (hl x (by simp)))
    · exact h

theorem sweep (h : b.All q) (hf : ∀ x, q x → q (f x)) : (b.sweep p f).All q := foldl_put hf b.recs h h

theorem of_get (h : b.All q) (hr : b.get k = some r) : q r := h r (get_some hr).1

end All

/-! ### The sequence -/

/-- The numbers of the sequence under which records are stored were handed out. -/
def Issued (b : Bucket ρ) : Prop := ∀ r ∈ b.recs, ∀ n, key r = ofSeq n → n ≤ b.seq

namespace Issued

/-- Nothing is stored under the numbers still to come. -/
theorem get_next (h : b.Issued) {n : ℕ} (hn : b.seq < n) : b.get (ofSeq n) = none :=
  get_none.mpr fun r hr hk => absurd (h r hr n hk) (by omega)

/-- The number given out next is not the key of a stored record. -/
theorem ne_next (h : b.Issued) (hr : b.get k = some r) : k ≠ ofSeq (b.seq + 1) := by
  rintro rfl
  rw [h.get_next (Nat.lt_succ_self b.seq)] at hr
  exact absurd hr (by simp)

theorem empty : (Bucket.empty : Bucket ρ).Issued := by simp [Issued, Bucket.empty]

theorem nextSequence (h : b.Issued) : b.nextSequence.Issued :=
  fun r hr n hk => (h r hr n hk).trans (Nat.le_succ _)

theorem put (h : b.Issued) (hr : ∀ n, key r = ofSeq n → n ≤ b.seq) : (b.put r).Issued := by
  by_cases hb : blank (key r)
  · simpa [Bucket.put, hb] using h
  · intro x hx n hn
    rw [put_seq]
    rcases (mem_put hb).mp hx with rfl | ⟨hx, -⟩
    · exact hr n hn
    · exact h x hx n hn

/-- The record takes the place of a stored one. -/
theorem put_of_get (h : b.Issued) (hr : b.get (key r) = some r') : (b.put r).Issued :=
  h.put fun n hn => by
    obtain ⟨hm, hk⟩ := get_some hr
    exact h r' hm n (hk.trans hn)

/-- The record is stored under the next number. -/
theorem put_next (h : b.Issued) (hr : key r = ofSeq (b.seq + 1)) : (b.nextSequence.put r).Issued :=
  h.nextSequence.put fun n hn => by
    have := Sequenced.ofSeq_injective (hr.symm.trans hn)
    simp [← this]

theorem sweep {p : ρ → Bool} {f : ρ → ρ} (hf : ∀ r, key (f r) = key r) (h : b.Issued) :
    (b.sweep p f).Issued := by
  intro r hr n hn
  have hg := get_of_mem hr
  rw [get_sweep hf, Option.map_eq_some_iff] at hg
  obtain ⟨x, hx, -⟩ := hg
  obtain ⟨hm, hk⟩ := get_some hx
  rw [sweep_seq]
  exact h x hm n (hk.trans hn)

theorem delete (h : b.Issued) : (b.delete k).Issued := fun r hr => h r (mem_delete.mp hr).1

/-- A record stored under the next number keeps `f` apart if and only if no
record has its value. -/
theorem uniqueBy_put_next_iff {β : Type} {f : ρ → β} (h : b.Issued) (hb : b.UniqueBy f)
    (hr : key r = ofSeq (b.seq + 1)) : (b.nextSequence.put r).UniqueBy f ↔ ∀ y ∈ b.recs, f y ≠ f r := by
  have hblank : ¬ blank (key r) := by
    rw [hr]
    exact Sequenced.not_blank_ofSeq _
  have hnew : ∀ y ∈ b.recs, key y ≠ key r := by
    intro y hy
    rw [hr]
    exact h.ne_next (get_of_mem hy)
  have hput := uniqueBy_put_iff (b := b.nextSequence) hb hblank
  rw [hput]
  exact ⟨fun hf y hy => hf y hy (hnew y hy), fun hf y hy _ => hf y hy⟩

end Issued

/-! ### Seen through a function -/

section Through

variable {f : ρ → ρ}

/-- Every record changed by `f`. -/
def through (f : ρ → ρ) (hf : ∀ r, key (f r) = key r) (b : Bucket ρ) : Bucket ρ where
  recs := b.recs.map f
  seq := b.seq
  sorted := List.pairwise_map.mpr (b.sorted.imp fun h => by rwa [hf, hf])
  keyed r hr := by
    obtain ⟨x, hx, rfl⟩ := List.mem_map.mp hr
    rw [hf]
    exact b.keyed x hx

variable {hf : ∀ r, key (f r) = key r}

@[simp] theorem through_recs : (b.through f hf).recs = b.recs.map f := rfl

@[simp] theorem through_seq : (b.through f hf).seq = b.seq := rfl

theorem get_through : (b.through f hf).get k = (b.get k).map f := by
  show (b.recs.map f).find? _ = _
  rw [List.find?_map, get]
  congr 2
  funext x
  exact congrArg (fun k' => decide (k' = k)) (hf x)

theorem through_put : (b.put r).through f hf = (b.through f hf).put (f r) := by
  by_cases hr : blank (key r)
  · have hfr : blank (key (f r)) := by rwa [hf]
    rw [put, dif_pos hr, put, dif_pos hfr]
  · have hfr : ¬ blank (key (f r)) := by rwa [hf]
    refine ext_get (fun k => ?_) (by simp)
    rw [get_through, get_put hr, get_put hfr, get_through, hf]
    split <;> rfl

theorem through_delete : (b.delete k).through f hf = (b.through f hf).delete k := by
  refine ext_get (fun k' => ?_) rfl
  rw [get_through, get_delete, get_delete, get_through]
  split <;> rfl

theorem through_nextSequence : b.nextSequence.through f hf = (b.through f hf).nextSequence := rfl

/-- A sweep that takes and gives the same through `f`. -/
theorem through_sweep {p : ρ → Bool} {g : ρ → ρ} (hg : ∀ r, key (g r) = key r) (hp : ∀ r, p (f r) = p r)
    (hfg : ∀ r, f (g r) = g (f r)) : (b.sweep p g).through f hf = (b.through f hf).sweep p g := by
  refine ext_get (fun k => ?_) (by simp)
  rw [get_through, get_sweep hg, get_sweep hg, get_through, Option.map_map, Option.map_map]
  congr 1
  funext x
  simp only [Function.comp_apply, hp]
  split
  · exact hfg x
  · rfl

end Through

end Bucket
