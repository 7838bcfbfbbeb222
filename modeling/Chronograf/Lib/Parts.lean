/-
# Lists of parts that have an identifier

A record may hold a list of parts, each with an identifier. An edit of the list
appends a part, removes the first one with an identifier, or puts another one in
its place. Which parts carry an identifier is decided by the edits with that
identifier alone, so edits with different ones do not disturb each other.

Key definitions: `Parts.Edit`, `Parts.Edit.apply`, `Parts.Edit.Frame`,
`Parts.SameUpToNew`.
Key theorems: `Parts.Edit.frame_mapIdx_iff`, `Parts.Edit.apply_map`,
`Parts.Edit.filter_other`, `Parts.Edit.map_eq_of_perm`.
-/
import Mathlib.Data.List.Indexes
import Mathlib.Data.List.Perm.Basic
import Mathlib.Data.Nat.Notation
import Mathlib.Tactic.Cases

/-- Parts that know their identifier. -/
class Identified (α : Type) (κ : outParam Type) where
  ident : α → κ

export Identified (ident)

namespace Parts

variable {α κ : Type} [Identified α κ] [DecidableEq κ] {l l' : List α} {k : κ}

/-- Where the first part with the identifier `k` is. -/
def position (k : κ) (l : List α) : Option ℕ := l.findIdx? fun x => ident x = k

/-- The parts with the identifier `k`. -/
def withIdent (k : κ) (l : List α) : List α := l.filter fun x => ident x = k

theorem withIdent_cons_self {x : α} (h : ident x = k) : withIdent k (x :: l) = x :: withIdent k l :=
  List.filter_cons_of_pos (decide_eq_true h)

theorem withIdent_cons_other {x : α} (h : ident x ≠ k) : withIdent k (x :: l) = withIdent k l :=
  List.filter_cons_of_neg (by simpa using h)

/-- `x` is the first part of `l` with the identifier `k`, between these others. -/
structure First (k : κ) (l before : List α) (x : α) (after : List α) : Prop where
  split : l = before ++ x :: after
  before : ∀ y ∈ before, ident y ≠ k
  ident : ident x = k

theorem position_eq_some_iff {i : ℕ} : ∀ {l : List α},
    position k l = some i ↔ ∃ before x after, First k l before x after ∧ i = before.length
  | [] => by
    constructor
    · intro h
      cases h
    · rintro ⟨before, x, after, hf, -⟩
      have hsplit := hf.split
      cases before <;> cases hsplit
  | y :: l => by
    unfold position
    rw [List.findIdx?_cons]
    by_cases hy : ident y = k
    · simp only [hy, decide_true, if_true, Option.some.injEq]
      constructor
      · rintro rfl
        exact ⟨[], y, l, ⟨rfl, by simp, hy⟩, rfl⟩
      · rintro ⟨before, x, after, hf, rfl⟩
        cases before with
        | nil => rfl
        | cons z before =>
          obtain ⟨rfl, -⟩ := List.cons.inj hf.split
          exact absurd hy (hf.before _ (by simp))
    · simp only [hy, decide_false, Bool.false_eq_true, if_false, Option.map_eq_some_iff]
      constructor
      · rintro ⟨j, hj, rfl⟩
        obtain ⟨before, x, after, hf, rfl⟩ := position_eq_some_iff.mp hj
        refine ⟨y :: before, x, after, ⟨by rw [hf.split]; rfl, ?_, hf.ident⟩, rfl⟩
        intro z hz
        rcases List.mem_cons.mp hz with rfl | hz
        · exact hy
        · exact hf.before z hz
      · rintro ⟨before, x, after, hf, rfl⟩
        cases before with
        | nil =>
          obtain ⟨rfl, -⟩ := List.cons.inj hf.split
          exact absurd hf.ident hy
        | cons z before =>
          obtain ⟨-, hl⟩ := List.cons.inj hf.split
          refine ⟨before.length, position_eq_some_iff.mpr ?_, rfl⟩
          exact ⟨before, x, after, ⟨hl, fun w hw => hf.before w (by simp [hw]), hf.ident⟩, rfl⟩

namespace First

variable {before after : List α} {x : α}

theorem eraseP (h : First k l before x after) : (l.eraseP fun y => Identified.ident y = k) = before ++ after := by
  have hbefore : ∀ y ∈ before, ¬ decide (Identified.ident y = k) = true := fun y hy => by simpa using h.before y hy
  rw [h.split, List.eraseP_append_right _ hbefore]
  simp [h.ident]

/-- No part before the first one has the identifier. -/
theorem withIdent_before (h : First k l before x after) : withIdent k before = [] := by
  unfold Parts.withIdent
  rw [List.filter_eq_nil_iff]
  simpa using h.before

theorem withIdent (h : First k l before x after) : withIdent k l = x :: withIdent k after := by
  have hb := h.withIdent_before
  rw [h.split]
  unfold Parts.withIdent at hb ⊢
  rw [List.filter_append, hb]
  simp [h.ident]

theorem withIdent_rest (h : First k l before x after) :
    Parts.withIdent k (before ++ after) = Parts.withIdent k after := by
  have hb := h.withIdent_before
  unfold Parts.withIdent at hb ⊢
  rw [List.filter_append, hb]
  rfl

theorem withIdent_replaced (h : First k l before x after) {a : α} (ha : Identified.ident a = k) :
    Parts.withIdent k (before ++ a :: after) = a :: Parts.withIdent k after := by
  have hb := h.withIdent_before
  unfold Parts.withIdent at hb ⊢
  rw [List.filter_append, hb]
  simp [ha]

end First

/-- Whether a part is found, and where, depends on the identifiers only. -/
theorem position_map {f : α → α} (hf : ∀ x, ident (f x) = ident x) : position k (l.map f) = position k l := by
  unfold position
  rw [List.findIdx?_map]
  congr 1
  funext x
  exact decide_eq_decide.mpr (by rw [hf])

@[simp] theorem withIdent_map {f : α → α} (hf : ∀ x, ident (f x) = ident x) :
    withIdent k (l.map f) = (withIdent k l).map f := by
  unfold withIdent
  rw [List.filter_map]
  congr 1
  refine List.filter_congr fun x _ => ?_
  exact decide_eq_decide.mpr (by rw [hf])

/-! ### Edits -/

/-- An edit of one part: `add` appends it, `remove` takes the first one with the
identifier away, `replace` puts a part in the place of the first one with its
identifier. -/
inductive Edit (κ α : Type)
  | add (a : α)
  | remove (k : κ)
  | replace (a : α)
  deriving DecidableEq

namespace Edit

variable {e : Edit κ α}

/-- The identifier of the part the edit is about. -/
def ident : Edit κ α → κ
  | add a => Identified.ident a
  | remove k => k
  | replace a => Identified.ident a

/-- The list after the edit, if it has the part that is to be removed or replaced. -/
def apply : Edit κ α → List α → Option (List α)
  | add a, l => some (l ++ [a])
  | remove k, l => (position k l).map fun i => l.eraseIdx i
  | replace a, l => (position (Identified.ident a) l).map fun i => l.set i a

/-- Nothing but the addressed part is another one. -/
def Frame : Edit κ α → List α → List α → Prop
  | add _, l, l' => ∃ a, l' = l ++ [a]
  | remove k, l, l' => ∃ i, position k l = some i ∧ l' = l.eraseIdx i
  | replace a, l, l' => ∃ i b, position (Identified.ident a) l = some i ∧ l' = l.set i b

/-- The parts that the edit is not about. -/
def others : Edit κ α → List α → List α
  | add _, l => l
  | remove k, l => l.eraseP fun x => Identified.ident x = k
  | replace a, l => l.eraseP fun x => Identified.ident x = Identified.ident a

/-- The edit with its part changed by `f`. -/
def map (f : α → α) : Edit κ α → Edit κ α
  | add a => add (f a)
  | remove k => remove k
  | replace a => replace (f a)

omit [DecidableEq κ] in
@[simp] theorem ident_map {f : α → α} (hf : ∀ x, Identified.ident (f x) = Identified.ident x) :
    (e.map f).ident = e.ident := by
  cases e <;> simp [map, ident, hf]

theorem apply_remove_iff : (remove k : Edit κ α).apply l = some l' ↔
    ∃ before x after, First k l before x after ∧ l' = before ++ after := by
  rw [apply, Option.map_eq_some_iff]
  constructor
  · rintro ⟨i, hi, rfl⟩
    obtain ⟨before, x, after, hf, rfl⟩ := position_eq_some_iff.mp hi
    refine ⟨before, x, after, hf, ?_⟩
    rw [hf.split, List.eraseIdx_append_of_length_le (Nat.le_refl _)]
    simp
  · rintro ⟨before, x, after, hf, rfl⟩
    refine ⟨before.length, position_eq_some_iff.mpr ⟨before, x, after, hf, rfl⟩, ?_⟩
    rw [hf.split, List.eraseIdx_append_of_length_le (Nat.le_refl _)]
    simp

theorem apply_replace_iff {a : α} : (replace a : Edit κ α).apply l = some l' ↔
    ∃ before x after, First (Identified.ident a) l before x after ∧ l' = before ++ a :: after := by
  rw [apply, Option.map_eq_some_iff]
  constructor
  · rintro ⟨i, hi, rfl⟩
    obtain ⟨before, x, after, hf, rfl⟩ := position_eq_some_iff.mp hi
    refine ⟨before, x, after, hf, ?_⟩
    rw [hf.split]
    simp
  · rintro ⟨before, x, after, hf, rfl⟩
    refine ⟨before.length, position_eq_some_iff.mpr ⟨before, x, after, hf, rfl⟩, ?_⟩
    rw [hf.split]
    simp

/-- What is in the list afterwards was there before, or it is the part added or
put in place. -/
theorem mem_of_apply {x : α} (h : e.apply l = some l') (hx : x ∈ l') : x ∈ l ∨ Identified.ident x = e.ident := by
  cases e with
  | add a =>
    obtain rfl := Option.some.inj h
    rcases List.mem_append.mp hx with hx | hx
    · exact .inl hx
    · rw [List.mem_singleton.mp hx]
      exact .inr rfl
  | remove k =>
    obtain ⟨before, y, after, hf, rfl⟩ := apply_remove_iff.mp h
    rw [hf.split]
    rcases List.mem_append.mp hx with hx | hx <;> exact .inl (by simp [hx])
  | replace a =>
    obtain ⟨before, y, after, hf, rfl⟩ := apply_replace_iff.mp h
    rw [hf.split]
    rcases List.mem_append.mp hx with hx | hx
    · exact .inl (by simp [hx])
    · rcases List.mem_cons.mp hx with rfl | hx
      · exact .inr rfl
      · exact .inl (by simp [hx])

/-! ### Nothing else changes -/

/-- A function that depends on the place leaves a list as it is. -/
theorem mapIdx_eq_self_iff {P : α → Prop} : ∀ {l : List α} {g : ℕ → α → α},
    (∀ x ∈ l, ∀ i, g i x = x ↔ P x) → (l.mapIdx g = l ↔ ∀ x ∈ l, P x)
  | [], _, _ => by simp
  | x :: l, g, hg => by
    have hrest : (l.mapIdx fun i => g (i + 1)) = l ↔ ∀ y ∈ l, P y :=
      mapIdx_eq_self_iff fun y hy i => hg y (by simp [hy]) (i + 1)
    rw [List.mapIdx_cons, List.cons.injEq, hrest, hg x (by simp) 0, List.forall_mem_cons]

/-- After the edit, each part is handed to `g` with its place. Nothing but the
addressed part is another one if and only if `g` leaves the others as they are. -/
theorem frame_mapIdx_iff {g : ℕ → α → α} {P : α → Prop} (hg : ∀ x ∈ l, ∀ i, g i x = x ↔ P x)
    (h : e.apply l = some l') : e.Frame l (l'.mapIdx g) ↔ ∀ x ∈ e.others l, P x := by
  cases e with
  | add a =>
    obtain rfl := Option.some.inj h
    rw [Frame, others, ← mapIdx_eq_self_iff hg, List.mapIdx_append]
    constructor
    · rintro ⟨b, hb⟩
      exact List.append_inj_left' hb rfl
    · intro hl
      rw [hl]
      exact ⟨_, rfl⟩
  | remove k =>
    obtain ⟨before, x, after, hf, rfl⟩ := apply_remove_iff.mp h
    have hposition := position_eq_some_iff.mpr ⟨before, x, after, hf, rfl⟩
    have herased : l.eraseIdx before.length = before ++ after := by
      rw [hf.split, List.eraseIdx_append_of_length_le (Nat.le_refl _)]
      simp
    have hothers : (remove k : Edit κ α).others l = before ++ after := hf.eraseP
    have hrest : ∀ y ∈ before ++ after, ∀ i, g i y = y ↔ P y := by
      intro y hy
      refine hg y ?_
      rw [hf.split]
      rcases List.mem_append.mp hy with hy | hy <;> simp [hy]
    rw [hothers, ← mapIdx_eq_self_iff hrest, Frame, hposition]
    simp [herased]
  | replace a =>
    obtain ⟨before, x, after, hf, rfl⟩ := apply_replace_iff.mp h
    have hposition := position_eq_some_iff.mpr ⟨before, x, after, hf, rfl⟩
    have hset : ∀ b, l.set before.length b = before ++ b :: after := by
      intro b
      rw [hf.split]
      simp
    have hothers : (replace a : Edit κ α).others l = before ++ after := hf.eraseP
    have hbefore : ∀ y ∈ before, ∀ i, g i y = y ↔ P y := fun y hy => hg y (by rw [hf.split]; simp [hy])
    have hafter : ∀ y ∈ after, ∀ i, g (i + (before.length + 1)) y = y ↔ P y :=
      fun y hy i => hg y (by rw [hf.split]; simp [hy]) _
    have hsplit : (before ++ a :: after).mapIdx g = before.mapIdx g ++ g before.length a ::
        after.mapIdx fun i => g (i + (before.length + 1)) := by
      rw [List.mapIdx_append, List.mapIdx_cons]
      simp [Nat.add_assoc, Nat.add_comm 1]
    rw [hothers, List.forall_mem_append, ← mapIdx_eq_self_iff hbefore, ← mapIdx_eq_self_iff hafter, Frame, hsplit]
    constructor
    · rintro ⟨i, b, hi, hb⟩
      obtain rfl := Option.some.inj (hi.symm.trans hposition)
      rw [hset] at hb
      have hinj := List.append_inj hb (by simp)
      exact ⟨hinj.1, (List.cons.inj hinj.2).2⟩
    · rintro ⟨hb, ha⟩
      exact ⟨before.length, g before.length a, hposition, by rw [hset, hb, ha]⟩

theorem frame_of_apply (h : e.apply l = some l') : e.Frame l l' := by
  cases e with
  | add a => exact ⟨a, (Option.some.inj h).symm⟩
  | remove k =>
    obtain ⟨i, hi, rfl⟩ := Option.map_eq_some_iff.mp h
    exact ⟨i, hi, rfl⟩
  | replace a =>
    obtain ⟨i, hi, rfl⟩ := Option.map_eq_some_iff.mp h
    exact ⟨i, a, hi, rfl⟩

/-! ### Edits of different parts -/

/-- An edit may be made before or after changing the parts but not their identifiers. -/
theorem apply_map {f : α → α} (hf : ∀ x, Identified.ident (f x) = Identified.ident x) :
    (e.map f).apply (l.map f) = (e.apply l).map (List.map f) := by
  cases e with
  | add a => simp [map, apply]
  | remove k =>
    simp only [map, apply, position_map hf, Option.map_map]
    congr 1
    funext i
    exact (List.eraseIdx_map f l i)
  | replace a =>
    simp only [map, apply, position_map hf, Option.map_map, hf]
    congr 1
    funext i
    exact List.map_set.symm

/-- Parts with another identifier stay. -/
theorem filter_other (h : e.apply l = some l') (hk : e.ident ≠ k) : withIdent k l' = withIdent k l := by
  unfold withIdent
  cases e with
  | add a =>
    obtain rfl := Option.some.inj h
    have ha : Identified.ident a ≠ k := hk
    simp [ha]
  | remove j =>
    obtain ⟨before, x, after, hf, rfl⟩ := apply_remove_iff.mp h
    have hx : Identified.ident x ≠ k := hf.ident ▸ hk
    simp [hf.split, hx]
  | replace a =>
    obtain ⟨before, x, after, hf, rfl⟩ := apply_replace_iff.mp h
    have ha : Identified.ident a ≠ k := hk
    have hx : Identified.ident x ≠ k := hf.ident ▸ hk
    simp [hf.split, hx, ha]

/-- What the edit does to the parts with its identifier depends on them only. -/
theorem filter_self (h : e.apply l = some l') : e.apply (withIdent e.ident l) = some (withIdent e.ident l') := by
  cases e with
  | add a =>
    obtain rfl := Option.some.inj h
    simp [apply, withIdent, ident]
  | remove k =>
    obtain ⟨before, x, after, hf, rfl⟩ := apply_remove_iff.mp h
    refine apply_remove_iff.mpr ⟨[], x, withIdent k after, ⟨?_, by simp, hf.ident⟩, ?_⟩
    · exact hf.withIdent
    · exact hf.withIdent_rest
  | replace a =>
    obtain ⟨before, x, after, hf, rfl⟩ := apply_replace_iff.mp h
    refine apply_replace_iff.mpr ⟨[], x, withIdent (Identified.ident a) after, ⟨?_, by simp, hf.ident⟩, ?_⟩
    · exact hf.withIdent
    · exact hf.withIdent_replaced rfl

/-- If the parts with its identifier are the same before and after, in whatever
order, the edit has changed nothing. -/
theorem eq_of_perm (h : e.apply l = some l') (hp : (withIdent e.ident l).Perm (withIdent e.ident l')) : l' = l := by
  cases e with
  | add a =>
    obtain rfl := Option.some.inj h
    have hlen := hp.length_eq
    simp [withIdent, ident] at hlen
  | remove k =>
    obtain ⟨before, x, after, hf, rfl⟩ := apply_remove_iff.mp h
    have hlen := hp.length_eq
    rw [show (remove k : Edit κ α).ident = k from rfl, hf.withIdent, hf.withIdent_rest] at hlen
    simp at hlen
  | replace a =>
    obtain ⟨before, x, after, hf, rfl⟩ := apply_replace_iff.mp h
    rw [show (replace a : Edit κ α).ident = Identified.ident a from rfl, hf.withIdent, hf.withIdent_replaced rfl] at hp
    have hx : x = a := by
      have hsingle : [x].Perm [a] := (List.perm_append_right_iff (withIdent (Identified.ident a) after)).mp hp
      exact List.singleton_perm_singleton.mp hsingle
    rw [hf.split, hx]

section Changed

variable {f : α → α} {m m' : List α}

/-- The same, where the lists are compared after all parts were changed by `f`
and stand in for the list before and the list after the edit. -/
theorem map_eq_of_perm (hf : ∀ x, Identified.ident (f x) = Identified.ident x) (h : e.apply l = some l')
    (hm : withIdent e.ident (m.map f) = withIdent e.ident (l.map f))
    (hm' : withIdent e.ident (m'.map f) = withIdent e.ident (l'.map f)) (hp : m.Perm m') :
    l'.map f = l.map f := by
  have happly : (e.map f).apply (l.map f) = some (l'.map f) := by rw [apply_map hf, h, Option.map_some]
  refine eq_of_perm happly ?_
  rw [ident_map hf, ← hm, ← hm']
  exact (hp.map f).filter _

/-- Where the parts with its identifier are the same, the edit makes the same of them. -/
theorem withIdent_congr (hf : ∀ x, Identified.ident (f x) = Identified.ident x) (h : e.apply l = some l')
    (hm : e.apply m = some m') (heq : withIdent e.ident (m.map f) = withIdent e.ident (l.map f)) :
    withIdent e.ident (m'.map f) = withIdent e.ident (l'.map f) := by
  have hl : (e.map f).apply (l.map f) = some (l'.map f) := by rw [apply_map hf, h, Option.map_some]
  have hm : (e.map f).apply (m.map f) = some (m'.map f) := by rw [apply_map hf, hm, Option.map_some]
  have hl := filter_self hl
  have hm := filter_self hm
  rw [ident_map hf] at hl hm
  rw [heq, hl] at hm
  exact (Option.some.inj hm).symm

/-- Whether the edit can be made depends on the parts with its identifier only. -/
theorem applies_congr (heq : withIdent e.ident m = withIdent e.ident l) (h : e.apply l = some l') :
    ∃ m', e.apply m = some m' := by
  have hfound : ∀ {k before x after}, First k l before x after → withIdent k m = withIdent k l →
      ∃ i, position k m = some i := by
    intro k before x after hf heq
    have hx : x ∈ withIdent k m := by rw [heq, hf.withIdent]; simp
    obtain ⟨hx, hk⟩ := List.mem_filter.mp hx
    refine Option.isSome_iff_exists.mp ?_
    unfold position
    rw [List.findIdx?_isSome, List.any_eq_true]
    exact ⟨x, hx, hk⟩
  cases e with
  | add a => exact ⟨_, rfl⟩
  | remove k =>
    obtain ⟨before, x, after, hf, -⟩ := apply_remove_iff.mp h
    obtain ⟨i, hi⟩ := hfound hf heq
    exact ⟨_, by rw [apply, hi]; rfl⟩
  | replace a =>
    obtain ⟨before, x, after, hf, -⟩ := apply_replace_iff.mp h
    obtain ⟨i, hi⟩ := hfound hf heq
    exact ⟨_, by rw [apply, hi]; rfl⟩

/-- So can it after all parts were changed, but not their identifiers. -/
theorem applies_map (hf : ∀ x, Identified.ident (f x) = Identified.ident x) (h : e.apply l = some l') :
    ∃ m, e.apply (l.map f) = some m := by
  cases e with
  | add a => exact ⟨_, rfl⟩
  | remove k =>
    obtain ⟨i, hi, -⟩ := Option.map_eq_some_iff.mp h
    exact ⟨_, by rw [apply, position_map hf, hi]; rfl⟩
  | replace a =>
    obtain ⟨i, hi, -⟩ := Option.map_eq_some_iff.mp h
    exact ⟨_, by rw [apply, position_map hf, hi]; rfl⟩

end Changed
end Edit

/-- The same parts, those with an identifier of `old` in the same order. -/
structure SameUpToNew (old : List κ) (l l' : List α) : Prop where
  perm : l.Perm l'
  order : l.filter (fun x => ident x ∈ old) = l'.filter fun x => ident x ∈ old

theorem SameUpToNew.refl (old : List κ) (l : List α) : SameUpToNew old l l := ⟨.refl l, rfl⟩

end Parts
