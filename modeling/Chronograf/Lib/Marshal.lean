/-
# Values as JSON

What is written of a value and what is read back of what was written. A
value need not come back as it was (`Marshal.stored`): a part without a name
in JSON is lost. Records are read member by member, each into the part of its
name; lists, maps and pointers may be `nil`, which is written as `null`.

Key definitions: `Marshal`, `Marshal.record`, `Slice`, `Members`.
Key theorems: `Marshal.unmarshal_marshal`, `Members.ofList_toList`.
-/
import Chronograf.Lib.Json
import Mathlib.Data.Int.Notation
import Mathlib.Data.String.Basic
import Mathlib.Tactic.SplitIfs

/-- Values with a JSON form. `stored` is what is read back of a value. -/
class Marshal (α : Type) where
  zero : α
  marshal : α → Json
  unmarshal : Json → Option α
  stored : α → α
  unmarshal_marshal : ∀ x, unmarshal (marshal x) = some (stored x)

/-- Values that come back as they were. -/
class Lossless (α : Type) [Marshal α] : Prop where
  stored_eq : ∀ x : α, Marshal.stored x = x

namespace Marshal

export Lossless (stored_eq)

attribute [simp] unmarshal_marshal stored_eq

variable {α β σ : Type}

/-! ### Records -/

/-- Each member of an object set in its order, in the record `z`; `null` leaves it as it is. -/
def record (z : σ) (set : σ → String → Json → Option σ) : Json → Option σ
  | .null => some z
  | .obj ms => ms.foldlM (fun s m => set s m.1 m.2) z
  | _ => none

/-- A member that is left out when it is empty. -/
def omitEmpty (name : String) (empty : Bool) (j : Json) : List (String × Json) := if empty then [] else [(name, j)]

@[simp] theorem record_obj (z : σ) (set : σ → String → Json → Option σ) (ms : List (String × Json)) :
    record z set (.obj ms) = ms.foldlM (fun s m => set s m.1 m.2) z := rfl

/-! ### Texts, truth values and numbers -/

instance : Marshal String where
  zero := ""
  marshal := .str
  unmarshal
    | .null => some ""
    | .str s => some s
    | _ => none
  stored := id
  unmarshal_marshal _ := rfl

instance : Lossless String := ⟨fun _ => rfl⟩

instance : Marshal Bool where
  zero := false
  marshal := .bool
  unmarshal
    | .null => some false
    | .bool b => some b
    | _ => none
  stored := id
  unmarshal_marshal _ := rfl

instance : Lossless Bool := ⟨fun _ => rfl⟩

/-- A value of any kind is the JSON value it is read from. -/
instance : Marshal Json where
  zero := .null
  marshal := id
  unmarshal := some
  stored := id
  unmarshal_marshal _ := rfl

instance : Lossless Json := ⟨fun _ => rfl⟩

/-- The whole number with the decimal text `cs`. -/
def wholeDigits (cs : List Char) : Option ℕ :=
  if cs ≠ [] ∧ cs.all Char.isDigit then some (Nat.ofDigitChars 10 cs 0) else none

/-- The integer with the decimal text `t`. -/
def integer (t : String) : Option ℤ :=
  match t.toList with
  | '-' :: cs => (wholeDigits cs).map fun n => -n
  | cs => (wholeDigits cs).map fun n => n

theorem wholeDigits_repr (n : ℕ) : wholeDigits (Nat.repr n).toList = some n := by
  have hne : Nat.toDigits 10 n ≠ [] := Nat.toDigits_ne_nil
  have hall : (Nat.toDigits 10 n).all Char.isDigit = true := by
    rw [List.all_eq_true]
    exact fun c hc => Nat.isDigit_of_mem_toDigits (by decide) (by decide) hc
  rw [Nat.toList_repr, wholeDigits, if_pos ⟨hne, hall⟩, Nat.ofDigitChars_ten_toDigits]

theorem integer_repr (i : ℤ) : integer (Int.repr i) = some i := by
  cases i with
  | ofNat n =>
    have hn := wholeDigits_repr n
    show integer (Nat.repr n) = _
    unfold integer
    split
    · rename_i cs hcs
      have hminus : '-' ∈ Nat.toDigits 10 n := by rw [← Nat.toList_repr, hcs]; exact List.mem_cons_self
      exact absurd (Nat.isDigit_of_mem_toDigits (by decide) (by decide) hminus) (by decide)
    · rw [hn]
      rfl
  | negSucc n =>
    have htext : (Int.repr (Int.negSucc n)).toList = '-' :: (Nat.repr (n + 1)).toList := by
      show ("-" ++ Nat.repr (n + 1)).toList = _
      rw [String.toList_append]
      rfl
    unfold integer
    rw [htext]
    simp only [wholeDigits_repr]
    rfl

/-- An integer type: its values as integers, and the value of an integer in its range. -/
@[reducible] def ofInteger (toInt : α → ℤ) (ofInt : ℤ → Option α) (z : α) (h : ∀ x, ofInt (toInt x) = some x) : Marshal α where
  zero := z
  marshal x := .num (toInt x).repr
  unmarshal
    | .null => some z
    | .num t => (integer t).bind ofInt
    | _ => none
  stored := id
  unmarshal_marshal x := by
    show (integer (toInt x).repr).bind ofInt = _
    rw [integer_repr]
    exact h x

instance : Marshal Int32 :=
  ofInteger Int32.toInt (fun i => if Int32.minValue.toInt ≤ i ∧ i ≤ Int32.maxValue.toInt then some (.ofInt i) else none)
    0 fun x => by
      rw [if_pos ⟨Int32.minValue_le_toInt x, Int32.toInt_le x⟩, Int32.ofInt_toInt]

instance : Lossless Int32 := ⟨fun _ => rfl⟩

instance : Marshal Int64 :=
  ofInteger Int64.toInt (fun i => if Int64.minValue.toInt ≤ i ∧ i ≤ Int64.maxValue.toInt then some (.ofInt i) else none)
    0 fun x => by
      rw [if_pos ⟨Int64.minValue_le_toInt x, Int64.toInt_le x⟩, Int64.ofInt_toInt]

instance : Lossless Int64 := ⟨fun _ => rfl⟩

/-! ### Pointers and lists -/

/-- Values that are not written as `null`. -/
class NotNull (α : Type) [Marshal α] : Prop where
  marshal_ne_null : ∀ x : α, Marshal.marshal x ≠ .null

instance : NotNull String := ⟨fun _ => Json.noConfusion⟩

section Pointer

variable [Marshal α] [NotNull α]

instance : Marshal (Option α) where
  zero := none
  marshal
    | none => .null
    | some x => marshal x
  unmarshal
    | .null => some none
    | j => (unmarshal j).map some
  stored := Option.map stored
  unmarshal_marshal
    | none => rfl
    | some x => by
      have hx := unmarshal_marshal x
      have hnull := NotNull.marshal_ne_null x
      show (match (marshal x : Json) with
        | .null => some none
        | j => (unmarshal j).map some) = _
      split
      · contradiction
      · rw [hx]
        rfl

instance [Lossless α] : Lossless (Option α) := ⟨fun x => by
  cases x with
  | none => rfl
  | some x => exact congrArg some (stored_eq x)⟩

end Pointer

end Marshal

/-- A list, or `nil`. -/
structure Slice (α : Type) where
  elems : Option (List α)
  deriving DecidableEq

instance {α : Type} : Membership α (Slice α) := ⟨fun xs x => x ∈ xs.elems.getD []⟩

namespace Marshal

section Slices

variable {α : Type} [Marshal α]

theorem mapM_unmarshal (xs : List α) : (xs.map marshal).mapM (unmarshal (α := α)) = some (xs.map stored) := by
  induction xs with
  | nil => rfl
  | cons x xs ih =>
    rw [List.map_cons, List.mapM_cons, unmarshal_marshal, ih]
    rfl

instance : Marshal (Slice α) where
  zero := ⟨none⟩
  marshal
    | ⟨none⟩ => .null
    | ⟨some xs⟩ => .arr (xs.map marshal)
  unmarshal
    | .null => some ⟨none⟩
    | .arr js => (js.mapM unmarshal).map fun xs => ⟨some xs⟩
    | _ => none
  stored xs := ⟨xs.elems.map (List.map stored)⟩
  unmarshal_marshal
    | ⟨none⟩ => rfl
    | ⟨some xs⟩ => by
      show ((xs.map marshal).mapM unmarshal).map _ = _
      rw [mapM_unmarshal]
      rfl

/-- A list comes back as it was if its elements do. -/
theorem stored_slice_eq_iff {xs : Slice α} : stored xs = xs ↔ ∀ x ∈ xs, stored x = x := by
  obtain ⟨_ | l⟩ := xs
  · exact iff_of_true rfl fun _ h => nomatch h
  · have hiff : l.map stored = l.map id ↔ ∀ x ∈ l, stored x = x := List.map_inj_left
    rw [List.map_id] at hiff
    show (⟨some (l.map stored)⟩ : Slice α) = ⟨some l⟩ ↔ ∀ x ∈ l, stored x = x
    rw [Slice.mk.injEq, Option.some.injEq, hiff]

instance [Lossless α] : Lossless (Slice α) := ⟨fun _ => stored_slice_eq_iff.mpr fun x _ => stored_eq x⟩

end Slices

end Marshal

/-! ### Maps -/

/-- The members of a map whose keys are texts, in the order of their keys. -/
structure Members (α : Type) where
  toList : List (String × α)
  sorted : toList.Pairwise fun a b => a.1 < b.1
  deriving DecidableEq

namespace Members

variable {α β : Type}

theorem ext {m n : Members α} (h : m.toList = n.toList) : m = n := by
  cases m
  cases n
  cases h
  rfl

/-- The member `(k, x)` added, or put in the place of the one under `k`. -/
def insertList (k : String) (x : α) : List (String × α) → List (String × α)
  | [] => [(k, x)]
  | m :: ms => if k < m.1 then (k, x) :: m :: ms else if m.1 < k then m :: insertList k x ms else (k, x) :: ms

theorem mem_insertList {k : String} {x : α} {m : String × α} : ∀ {ms : List (String × α)},
    m ∈ insertList k x ms → m = (k, x) ∨ m ∈ ms
  | [], h => .inl (List.mem_singleton.mp h)
  | m' :: ms, h => by
    unfold insertList at h
    split_ifs at h
    · exact (List.mem_cons.mp h).imp_right id
    · rcases List.mem_cons.mp h with rfl | h
      · exact .inr List.mem_cons_self
      · exact (mem_insertList h).imp_right (List.mem_cons_of_mem _)
    · exact (List.mem_cons.mp h).imp_right (List.mem_cons_of_mem _)

theorem insertList_sorted {k : String} {x : α} : ∀ {ms : List (String × α)},
    ms.Pairwise (fun a b => a.1 < b.1) → (insertList k x ms).Pairwise fun a b => a.1 < b.1
  | [], _ => List.pairwise_singleton _ _
  | m :: ms, h => by
    obtain ⟨hm, hms⟩ := List.pairwise_cons.mp h
    unfold insertList
    split_ifs with hlt hgt
    · refine List.pairwise_cons.mpr ⟨fun y hy => ?_, h⟩
      rcases List.mem_cons.mp hy with rfl | hy
      · exact hlt
      · exact hlt.trans (hm y hy)
    · refine List.pairwise_cons.mpr ⟨fun y hy => ?_, insertList_sorted hms⟩
      rcases mem_insertList hy with rfl | hy
      · exact hgt
      · exact hm y hy
    · have hk : m.1 = k := le_antisymm (not_lt.mp hlt) (not_lt.mp hgt)
      exact List.pairwise_cons.mpr ⟨fun y hy => hk ▸ hm y hy, hms⟩

def empty : Members α := ⟨[], .nil⟩

def insert (ms : Members α) (k : String) (x : α) : Members α := ⟨insertList k x ms.toList, insertList_sorted ms.sorted⟩

/-- The map with these members, of two under one key the later one. -/
def ofList (l : List (String × α)) : Members α := l.foldl (fun ms m => ms.insert m.1 m.2) empty

/-- A member behind all others is added at the end. -/
theorem insertList_last {k : String} {x : α} : ∀ {ms : List (String × α)}, (∀ m ∈ ms, m.1 < k) →
    insertList k x ms = ms ++ [(k, x)]
  | [], _ => rfl
  | m :: ms, h => by
    have hm : m.1 < k := h m List.mem_cons_self
    rw [insertList, if_neg hm.asymm, if_pos hm, insertList_last fun m hm => h m (List.mem_cons_of_mem _ hm)]
    rfl

theorem foldl_insert_toList : ∀ (l : List (String × α)) (ms : Members α),
    (ms.toList ++ l).Pairwise (fun a b => a.1 < b.1) →
      (l.foldl (fun ms m => ms.insert m.1 m.2) ms).toList = ms.toList ++ l
  | [], ms, _ => (List.append_nil _).symm
  | m :: l, ms, h => by
    have hlast : ∀ x ∈ ms.toList, x.1 < m.1 := fun x hx =>
      (List.pairwise_append.mp h).2.2 x hx m List.mem_cons_self
    have hinsert : (ms.insert m.1 m.2).toList = ms.toList ++ [m] := insertList_last hlast
    rw [List.foldl_cons, foldl_insert_toList l (ms.insert m.1 m.2), hinsert, List.append_assoc]
    · rfl
    · rw [hinsert, List.append_assoc]
      exact h

theorem ofList_toList (ms : Members α) : ofList ms.toList = ms :=
  ext (foldl_insert_toList ms.toList empty ms.sorted)

/-- Without the members that `p` does not hold of. -/
def filter (p : α → Bool) (ms : Members α) : Members α := ⟨ms.toList.filter fun m => p m.2, ms.sorted.filter _⟩

theorem filter_eq_self {p : α → Bool} {ms : Members α} (h : ∀ m ∈ ms.toList, p m.2) : ms.filter p = ms :=
  ext (List.filter_eq_self.mpr h)

def map (f : α → β) (ms : Members α) : Members β :=
  ⟨ms.toList.map fun m => (m.1, f m.2), List.pairwise_map.mpr ms.sorted⟩

end Members

namespace Marshal

section Maps

variable {α : Type} [Marshal α]

theorem mapM_members (l : List (String × α)) :
    (l.map fun m => (m.1, marshal m.2)).mapM (fun m => (unmarshal m.2).map fun x : α => (m.1, x)) =
      some (l.map fun m => (m.1, stored m.2)) := by
  induction l with
  | nil => rfl
  | cons m l ih =>
    rw [List.map_cons, List.mapM_cons, unmarshal_marshal, ih]
    rfl

instance : Marshal (Option (Members α)) where
  zero := none
  marshal
    | none => .null
    | some ms => .obj (ms.toList.map fun m => (m.1, marshal m.2))
  unmarshal
    | .null => some none
    | .obj js => (js.mapM fun m => (unmarshal m.2).map fun x => (m.1, x)).map fun l => some (.ofList l)
    | _ => none
  stored := Option.map (Members.map stored)
  unmarshal_marshal
    | none => rfl
    | some ms => by
      show Option.map _ (List.mapM _ (ms.toList.map fun m => (m.1, marshal m.2))) = _
      rw [mapM_members]
      exact congrArg (fun ms => some (some ms)) (Members.ofList_toList (ms.map stored))

/-- A map comes back as it was if its values do. -/
theorem stored_members_eq_iff {ms : Option (Members α)} :
    stored ms = ms ↔ ∀ l ∈ ms, ∀ m ∈ l.toList, stored m.2 = m.2 := by
  cases ms with
  | none => exact iff_of_true rfl fun _ h => nomatch h
  | some l =>
    have hiff : l.toList.map (fun m => (m.1, stored m.2)) = l.toList.map id ↔
        ∀ m ∈ l.toList, (m.1, stored m.2) = m := List.map_inj_left
    rw [List.map_id] at hiff
    constructor
    · rintro h _ ⟨⟩ m hm
      have hmap : l.toList.map (fun m => (m.1, stored m.2)) = l.toList :=
        congrArg Members.toList (Option.some.inj h)
      exact congrArg Prod.snd (hiff.mp hmap m hm)
    · exact fun h => congrArg some (Members.ext (hiff.mpr fun m hm => Prod.ext rfl (h l rfl m hm)))

instance [Lossless α] : Lossless (Option (Members α)) :=
  ⟨fun _ => stored_members_eq_iff.mpr fun _ _ m _ => stored_eq m.2⟩

end Maps

end Marshal
