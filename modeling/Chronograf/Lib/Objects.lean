/-
# Objects as maps from texts

The properties of an object in the order they were created. A property keeps its
place when it is set again; when the values are listed, the properties that are
indices come first. Setting a list of properties one after the other leaves the
last value of each, and grouping a list leaves under each key its values in order.

Key definitions: `Props`, `Props.set`, `Props.get?`, `Props.values`, `Props.ofList`, `Props.group`.
Key theorems: `Props.get?_set`, `Props.mem_entries`, `Props.values_perm`,
`Props.ofList_entries_perm`, `Props.get?_group`, `Props.entries_group`, `Props.ordered_of_increasing`.
-/
import Mathlib.Data.List.Sort
import Mathlib.Data.List.Pairwise
import Mathlib.Data.List.Perm.Basic

/-- Properties with different names. -/
structure Props (α : Type) where
  entries : List (String × α)
  nodup : (entries.map Prod.fst).Nodup

namespace Props

variable {α β : Type}

def empty : Props α := ⟨[], List.nodup_nil⟩

def setEntry (k : String) (v : α) : List (String × α) → List (String × α)
  | [] => [(k, v)]
  | e :: es => if e.1 = k then (k, v) :: es else e :: setEntry k v es

theorem keys_setEntry (k : String) (v : α) : ∀ es : List (String × α),
    (setEntry k v es).map Prod.fst = if k ∈ es.map Prod.fst then es.map Prod.fst else es.map Prod.fst ++ [k]
  | [] => rfl
  | e :: es => by
    rw [setEntry]
    by_cases h : e.1 = k
    · rw [if_pos h, List.map_cons, List.map_cons, ← h, if_pos (List.mem_cons_self ..)]
    · rw [if_neg h, List.map_cons, List.map_cons, keys_setEntry k v es]
      have hmem : k ∈ e.1 :: es.map Prod.fst ↔ k ∈ es.map Prod.fst := by
        rw [List.mem_cons, or_iff_right (Ne.symm h)]
      rw [apply_ite (e.1 :: ·)]
      exact (if_congr hmem rfl rfl).symm

/-- `o[k] = v`. -/
def set (o : Props α) (k : String) (v : α) : Props α where
  entries := setEntry k v o.entries
  nodup := by
    rw [keys_setEntry]
    split_ifs with h
    · exact o.nodup
    · exact List.nodup_append.mpr ⟨o.nodup, List.nodup_singleton k, fun a ha b hb hab => h (List.mem_singleton.mp hb ▸ hab ▸ ha)⟩

/-- `delete o[k]`. -/
def delete (o : Props α) (k : String) : Props α where
  entries := o.entries.filter fun e => e.1 ≠ k
  nodup := o.nodup.sublist (List.filter_sublist.map _)

def getEntry (k : String) : List (String × α) → Option α
  | [] => none
  | e :: es => if e.1 = k then some e.2 else getEntry k es

/-- `o[k]`. -/
def get? (o : Props α) (k : String) : Option α := getEntry k o.entries

/-- The properties that are indices in their order, then the other ones. -/
def ordered (index : String → Option ℕ) (o : Props α) : List (String × α) :=
  ((o.entries.filter fun e => (index e.1).isSome).insertionSort fun a b => (index a.1).getD 0 ≤ (index b.1).getD 0) ++
    o.entries.filter fun e => !(index e.1).isSome

def values (index : String → Option ℕ) (o : Props α) : List α := (o.ordered index).map Prod.snd

def map (f : α → β) (o : Props α) : Props β where
  entries := o.entries.map fun e => (e.1, f e.2)
  nodup := by
    rw [List.map_map]
    exact o.nodup

/-- Properties set one after the other. -/
def ofList (l : List (String × α)) : Props α := l.foldl (fun o e => o.set e.1 e.2) empty

/-- `(o[k] = o[k] || []).push(v)`. -/
def push (o : Props (List α)) (k : String) (v : α) : Props (List α) := o.set k ((o.get? k).getD [] ++ [v])

/-- The values under each key. -/
def group (l : List (String × α)) : Props (List α) := l.foldl (fun o e => o.push e.1 e.2) empty

/-- The properties that every object has from its prototype. -/
def inherited : List String :=
  ["constructor", "__defineGetter__", "__defineSetter__", "hasOwnProperty", "__lookupGetter__", "__lookupSetter__", "isPrototypeOf",
    "propertyIsEnumerable", "toString", "valueOf", "__proto__", "toLocaleString"]

/-- A property keeps its place when it is set again. -/
example : setEntry "a" 3 [("a", 1), ("b", 2)] = [("a", 3), ("b", 2)] ∧ getEntry "b" [("a", 3), ("b", 2)] = some 2 := by
  simp [setEntry, getEntry]

/-! ### Properties -/

theorem getEntry_setEntry (k k' : String) (v : α) : ∀ es : List (String × α),
    getEntry k' (setEntry k v es) = if k' = k then some v else getEntry k' es
  | [] => if_congr eq_comm rfl rfl
  | e :: es => by
    rw [setEntry]
    by_cases h : e.1 = k
    · rw [if_pos h, getEntry, getEntry, h]
      by_cases h' : k' = k
      · rw [if_pos h'.symm, if_pos h']
      · rw [if_neg (Ne.symm h'), if_neg h', if_neg (Ne.symm h')]
    · rw [if_neg h, getEntry, getEntry, getEntry_setEntry k k' v es]
      by_cases h' : k' = k
      · rw [if_pos h', if_neg (h' ▸ h), if_pos h']
      · rw [if_neg h', if_neg h']

@[simp] theorem get?_empty (k : String) : (empty : Props α).get? k = none := rfl

theorem get?_set (o : Props α) (k k' : String) (v : α) : (o.set k v).get? k' = if k' = k then some v else o.get? k' :=
  getEntry_setEntry k k' v o.entries

theorem mem_entries {o : Props α} {k : String} {v : α} : (k, v) ∈ o.entries ↔ o.get? k = some v := by
  obtain ⟨entries, hnodup⟩ := o
  show (k, v) ∈ entries ↔ getEntry k entries = some v
  induction entries with
  | nil => exact iff_of_false nofun nofun
  | cons e es ih =>
    obtain ⟨k₁, v₁⟩ := e
    obtain ⟨hk₁, hes⟩ := List.nodup_cons.mp hnodup
    rw [List.mem_cons, getEntry, ih hes]
    by_cases h : k₁ = k
    · have hnone : getEntry k es ≠ some v := fun hv => hk₁ (List.mem_map.mpr ⟨(k, v), (ih hes).mpr hv, h.symm⟩)
      rw [if_pos h, or_iff_left hnone, Option.some.injEq]
      exact ⟨fun hv => (Prod.mk.inj hv).2.symm, fun hv => by rw [← h, ← hv]⟩
    · rw [if_neg h]
      exact or_iff_right fun hv => h (Prod.mk.inj hv).1.symm

theorem get?_delete {o : Props α} {k k' : String} {v : α} : (o.delete k).get? k' = some v ↔ k' ≠ k ∧ o.get? k' = some v := by
  rw [← mem_entries, ← mem_entries, delete, List.mem_filter, decide_eq_true_iff, and_comm]

theorem nodup_entries (o : Props α) : o.entries.Nodup := List.Nodup.of_map _ o.nodup

/-- Objects with the same properties have the same entries, maybe in another order. -/
theorem entries_perm {o p : Props α} (h : ∀ k, o.get? k = p.get? k) : o.entries.Perm p.entries := by
  refine (List.perm_ext_iff_of_nodup o.nodup_entries p.nodup_entries).mpr ?_
  rintro ⟨k, v⟩
  rw [mem_entries, mem_entries, h]

theorem values_perm (index : String → Option ℕ) (o : Props α) : (o.values index).Perm (o.entries.map Prod.snd) := by
  refine List.Perm.map _ (((List.perm_insertionSort _ _).append_right _).trans ?_)
  exact List.filter_append_perm (fun e : String × α => (index e.1).isSome) o.entries

theorem mem_values {index : String → Option ℕ} {o : Props α} {v : α} : v ∈ o.values index ↔ ∃ k, o.get? k = some v := by
  rw [(values_perm index o).mem_iff, List.mem_map]
  constructor
  · rintro ⟨⟨k, v⟩, hmem, rfl⟩
    exact ⟨k, mem_entries.mp hmem⟩
  · rintro ⟨k, hk⟩
    exact ⟨(k, v), mem_entries.mpr hk, rfl⟩

/-- A symmetric relation holds between the values of different properties. -/
theorem pairwise_values {index : String → Option ℕ} {o : Props α} {r : α → α → Prop} [Std.Symm r] :
    (o.values index).Pairwise r ↔ ∀ k k' v v', o.get? k = some v → o.get? k' = some v' → k ≠ k' → r v v' := by
  have hsymm : Std.Symm fun e e' : String × α => r e.2 e'.2 := ⟨fun _ _ h => Std.Symm.symm _ _ h⟩
  rw [(values_perm index o).pairwise_iff (fun {_ _} h => Std.Symm.symm _ _ h), List.pairwise_map]
  constructor
  · intro h k k' v v' hv hv' hne
    exact h.forall (mem_entries.mpr hv) (mem_entries.mpr hv') fun heq => hne (congrArg Prod.fst heq)
  · refine fun h => o.nodup_entries.pairwise_of_forall_ne ?_
    rintro ⟨k, v⟩ hv ⟨k', v'⟩ hv' hne
    refine h k k' v v' (mem_entries.mp hv) (mem_entries.mp hv') ?_
    rintro rfl
    have heq : v = v' := Option.some.inj ((mem_entries.mp hv).symm.trans (mem_entries.mp hv'))
    exact hne (by rw [heq])

theorem get?_map (f : α → β) (o : Props α) (k : String) : (o.map f).get? k = (o.get? k).map f := by
  show getEntry k (o.entries.map fun e => (e.1, f e.2)) = (getEntry k o.entries).map f
  induction o.entries with
  | nil => rfl
  | cons e es ih =>
    rw [List.map_cons, getEntry, getEntry, ih]
    split_ifs <;> rfl

/-! ### Lists of properties -/

/-- The entries after which no one with the same key comes. -/
def lasts : List (String × α) → List (String × α)
  | [] => []
  | e :: es => if e.1 ∈ es.map Prod.fst then lasts es else e :: lasts es

example : lasts [("a", 1), ("b", 2), ("a", 3)] = [("b", 2), ("a", 3)] := by simp [lasts]

theorem mem_lasts_key {k : String} : ∀ {l : List (String × α)}, k ∈ (lasts l).map Prod.fst ↔ k ∈ l.map Prod.fst
  | [] => Iff.rfl
  | e :: es => by
    rw [lasts]
    split_ifs with h
    · rw [mem_lasts_key, List.map_cons, List.mem_cons]
      exact ⟨.inr, fun hk => hk.elim (fun hke => hke ▸ h) id⟩
    · rw [List.map_cons, List.map_cons, List.mem_cons, List.mem_cons, mem_lasts_key]

theorem nodup_lasts : ∀ l : List (String × α), ((lasts l).map Prod.fst).Nodup
  | [] => List.nodup_nil
  | e :: es => by
    rw [lasts]
    split_ifs with h
    · exact nodup_lasts es
    · exact List.nodup_cons.mpr ⟨mt mem_lasts_key.mp h, nodup_lasts es⟩

theorem lasts_sublist : ∀ l : List (String × α), List.Sublist (lasts l) l
  | [] => List.Sublist.slnil
  | e :: es => by
    rw [lasts]
    split_ifs
    · exact (lasts_sublist es).cons _
    · exact (lasts_sublist es).cons_cons _

theorem lasts_eq_self : ∀ {l : List (String × α)}, (l.map Prod.fst).Nodup → lasts l = l
  | [], _ => rfl
  | e :: es, h => by
    obtain ⟨he, hes⟩ := List.nodup_cons.mp h
    rw [lasts, if_neg he, lasts_eq_self hes]

theorem lasts_map (f : α → β) : ∀ l : List (String × α),
    lasts (l.map fun e => (e.1, f e.2)) = (lasts l).map fun e => (e.1, f e.2)
  | [] => rfl
  | e :: es => by
    have hkeys : (es.map fun e => (e.1, f e.2)).map Prod.fst = es.map Prod.fst := by
      rw [List.map_map]
      rfl
    rw [List.map_cons, lasts, lasts, hkeys, lasts_map f es]
    split_ifs <;> rfl

/-- The entries that stay. -/
def last (l : List (String × α)) : Props α := ⟨lasts l, nodup_lasts l⟩

theorem get?_last_eq_none {k : String} {l : List (String × α)} (h : k ∉ l.map Prod.fst) : (last l).get? k = none := by
  cases hget : (last l).get? k with
  | none => rfl
  | some v => exact absurd (mem_lasts_key.mp (List.mem_map.mpr ⟨(k, v), mem_entries.mpr hget, rfl⟩)) h

theorem exists_get?_last {k : String} {l : List (String × α)} (h : k ∈ l.map Prod.fst) : ∃ v, (last l).get? k = some v := by
  obtain ⟨⟨k', v⟩, hmem, rfl⟩ := List.mem_map.mp (mem_lasts_key.mpr h)
  exact ⟨v, mem_entries.mp hmem⟩

theorem get?_last_cons (e : String × α) (es : List (String × α)) (k : String) :
    (last (e :: es)).get? k = ((last es).get? k).or (if e.1 = k then some e.2 else none) := by
  show getEntry k (lasts (e :: es)) = _
  rw [lasts]
  split_ifs with hmem hk hk
  · obtain ⟨v, hv⟩ := exists_get?_last hmem
    rw [← hk, hv]
    exact hv
  · rw [Option.or_none]
    rfl
  · rw [get?_last_eq_none (hk ▸ hmem), getEntry, if_pos hk]
    rfl
  · rw [Option.or_none, getEntry, if_neg hk]
    rfl

theorem get?_foldl_set (k : String) : ∀ (l : List (String × α)) (o : Props α),
    (l.foldl (fun o e => o.set e.1 e.2) o).get? k = ((last l).get? k).or (o.get? k)
  | [], _ => rfl
  | e :: es, o => by
    rw [List.foldl_cons, get?_foldl_set k es, get?_set, get?_last_cons, Option.or_assoc]
    congr 1
    by_cases h : k = e.1
    · rw [if_pos h, if_pos h.symm, Option.some_or]
    · rw [if_neg h, if_neg (Ne.symm h), Option.none_or]

/-- Of entries with one key the last one stays. -/
theorem ofList_entries_perm (l : List (String × α)) : (ofList l).entries.Perm (lasts l) := by
  refine entries_perm (p := last l) fun k => ?_
  rw [ofList, get?_foldl_set, get?_empty, Option.or_none]

theorem get?_foldl_push (k : String) : ∀ (l : List (String × α)) (o : Props (List α)),
    (l.foldl (fun o e => o.push e.1 e.2) o).get? k =
      if k ∈ l.map Prod.fst then some ((o.get? k).getD [] ++ (l.filter (·.1 = k)).map Prod.snd) else o.get? k
  | [], _ => rfl
  | e :: es, o => by
    rw [List.foldl_cons, get?_foldl_push k es, push, get?_set, List.map_cons, List.filter_cons]
    by_cases h : k = e.1
    · have hnil : k ∉ es.map Prod.fst → es.filter (·.1 = k) = [] := fun hmem =>
        List.filter_eq_nil_iff.mpr fun e' he' => by
          rw [decide_eq_true_iff]
          exact fun heq => hmem (List.mem_map.mpr ⟨e', he', heq⟩)
      have hfirst : k ∈ e.1 :: es.map Prod.fst := h ▸ List.mem_cons_self
      rw [if_pos h, if_pos hfirst, Option.getD_some, if_pos (decide_eq_true h.symm), List.map_cons]
      split_ifs with hmem
      · rw [← h, List.append_assoc, List.singleton_append]
      · rw [hnil hmem, ← h]
        rfl
    · have hmem : k ∈ e.1 :: es.map Prod.fst ↔ k ∈ es.map Prod.fst := by
        rw [List.mem_cons, or_iff_right h]
      have hdrop : ¬ decide (e.1 = k) = true := by simpa using Ne.symm h
      rw [if_neg h, if_neg hdrop]
      exact (if_congr hmem rfl rfl).symm

/-- Under each key that occurs are its values in order. -/
theorem get?_group (l : List (String × α)) (k : String) :
    (group l).get? k = if k ∈ l.map Prod.fst then some ((l.filter (·.1 = k)).map Prod.snd) else none := by
  rw [group, get?_foldl_push, get?_empty, Option.getD_none, List.nil_append]

/-- The groups of a list. -/
theorem mem_values_group {index : String → Option ℕ} {l : List (String × α)} {vs : List α} (h : vs ∈ (group l).values index) :
    vs ≠ [] ∧ ∀ v ∈ vs, ∃ k, (k, v) ∈ l := by
  obtain ⟨k, hk⟩ := mem_values.mp h
  rw [get?_group] at hk
  split_ifs at hk with hmem
  obtain rfl := Option.some_inj.mp hk
  obtain ⟨e, he, rfl⟩ := List.mem_map.mp hmem
  refine ⟨fun hnil => ?_, fun v hv => ?_⟩
  · exact List.filter_eq_nil_iff.mp (List.map_eq_nil_iff.mp hnil) e he (decide_eq_true rfl)
  · obtain ⟨e', he', rfl⟩ := List.mem_map.mp hv
    exact ⟨e'.1, (List.mem_filter.mp he').1⟩

theorem exists_mem_values_group (index : String → Option ℕ) {l : List (String × α)} {k : String} {v : α} (h : (k, v) ∈ l) :
    ∃ vs ∈ (group l).values index, v ∈ vs := by
  refine ⟨(l.filter (·.1 = k)).map Prod.snd, mem_values.mpr ⟨k, ?_⟩, ?_⟩
  · rw [get?_group, if_pos (List.mem_map.mpr ⟨(k, v), h, rfl⟩)]
  · exact List.mem_map.mpr ⟨(k, v), List.mem_filter.mpr ⟨h, decide_eq_true rfl⟩, rfl⟩

/-! ### Grouping what is in order -/

theorem setEntry_of_notMem {k : String} (v : α) : ∀ {es : List (String × α)}, k ∉ es.map Prod.fst → setEntry k v es = es ++ [(k, v)]
  | [], _ => rfl
  | e :: es, h => by
    obtain ⟨he, hes⟩ := List.ne_and_not_mem_of_not_mem_cons h
    rw [setEntry, if_neg (Ne.symm he), setEntry_of_notMem v hes]
    rfl

theorem setEntry_last {k : String} (v w : α) : ∀ {es : List (String × α)}, k ∉ es.map Prod.fst →
    setEntry k v (es ++ [(k, w)]) = es ++ [(k, v)]
  | [], _ => if_pos rfl
  | e :: es, h => by
    obtain ⟨he, hes⟩ := List.ne_and_not_mem_of_not_mem_cons h
    rw [List.cons_append, setEntry, if_neg (Ne.symm he), setEntry_last v w hes]
    rfl

theorem getEntry_last {k : String} (w : α) : ∀ {es : List (String × α)}, k ∉ es.map Prod.fst → getEntry k (es ++ [(k, w)]) = some w
  | [], _ => if_pos rfl
  | e :: es, h => by
    obtain ⟨he, hes⟩ := List.ne_and_not_mem_of_not_mem_cons h
    rw [List.cons_append, getEntry, if_neg (Ne.symm he), getEntry_last w hes]

theorem getEntry_of_notMem {k : String} : ∀ {es : List (String × α)}, k ∉ es.map Prod.fst → getEntry k es = none
  | [], _ => rfl
  | e :: es, h => by
    obtain ⟨he, hes⟩ := List.ne_and_not_mem_of_not_mem_cons h
    rw [getEntry, if_neg (Ne.symm he), getEntry_of_notMem hes]

/-- More values under the last key. -/
theorem entries_foldl_push_last {k : String} {es : List (String × List α)} (hk : k ∉ es.map Prod.fst) : ∀ (vs ws : List α) (o : Props (List α)),
    o.entries = es ++ [(k, ws)] → ((vs.map (k, ·)).foldl (fun o e => o.push e.1 e.2) o).entries = es ++ [(k, ws ++ vs)]
  | [], ws, o, ho => by rw [List.append_nil]; exact ho
  | v :: vs, ws, o, ho => by
    have hget : o.get? k = some ws := by
      rw [get?, ho]
      exact getEntry_last ws hk
    have hpush : (o.push k v).entries = es ++ [(k, ws ++ [v])] := by
      rw [push, hget, Option.getD_some]
      exact (congrArg (setEntry k (ws ++ [v])) ho).trans (setEntry_last _ _ hk)
    rw [List.map_cons, List.foldl_cons, entries_foldl_push_last hk vs (ws ++ [v]) _ hpush, List.append_assoc]
    rfl

/-- Values that come key by key are grouped as they come. -/
theorem entries_foldl_push : ∀ (groups : List (String × List α)) (o : Props (List α)), (∀ g ∈ groups, g.2 ≠ []) →
    (groups.map Prod.fst).Nodup → (∀ g ∈ groups, g.1 ∉ o.entries.map Prod.fst) →
    ((groups.flatMap fun g => g.2.map (g.1, ·)).foldl (fun o e => o.push e.1 e.2) o).entries = o.entries ++ groups
  | [], o, _, _, _ => (List.append_nil _).symm
  | (k, vs) :: groups, o, hne, hnodup, hfresh => by
    obtain ⟨v, vs, rfl⟩ := List.exists_cons_of_ne_nil (hne _ List.mem_cons_self)
    obtain ⟨hk, hgroups⟩ := List.nodup_cons.mp hnodup
    have hnew := hfresh _ List.mem_cons_self
    have hpush : (o.push k v).entries = o.entries ++ [(k, [v])] := by
      rw [push, get?, getEntry_of_notMem hnew]
      exact setEntry_of_notMem _ hnew
    have hfirst : (((v :: vs).map (k, ·)).foldl (fun o e => o.push e.1 e.2) o).entries = o.entries ++ [(k, v :: vs)] :=
      entries_foldl_push_last hnew vs [v] _ hpush
    rw [List.flatMap_cons, List.foldl_append, entries_foldl_push groups _ (fun g hg => hne g (List.mem_cons_of_mem _ hg)) hgroups, hfirst,
      List.append_assoc]
    · rfl
    · intro g hg
      rw [hfirst, List.map_append, List.mem_append, not_or, List.map_singleton, List.mem_singleton]
      exact ⟨hfresh g (List.mem_cons_of_mem _ hg), fun heq => hk (List.mem_map.mpr ⟨g, hg, heq⟩)⟩

theorem entries_group {groups : List (String × List α)} (hne : ∀ g ∈ groups, g.2 ≠ []) (hnodup : (groups.map Prod.fst).Nodup) :
    (group (groups.flatMap fun g => g.2.map (g.1, ·))).entries = groups :=
  entries_foldl_push groups empty hne hnodup fun _ _ => List.not_mem_nil

/-- Where the names are numbers that increase, those that are indices are first anyway. -/
theorem ordered_of_increasing {index : String → Option ℕ} {o : Props α} (number : String × α → ℕ) (bound : ℕ)
    (hindex : ∀ e ∈ o.entries, index e.1 = if number e < bound then some (number e) else none)
    (hincreasing : o.entries.Pairwise fun e e' => number e < number e') : o.ordered index = o.entries := by
  have hsome : ∀ e ∈ o.entries, (index e.1).isSome = decide (number e < bound) := fun e he => by
    rw [hindex e he]
    split_ifs with h
    · exact (decide_eq_true h).symm
    · exact (decide_eq_false h).symm
  have hsorted : (o.entries.filter fun e => (index e.1).isSome).insertionSort (fun a b => (index a.1).getD 0 ≤ (index b.1).getD 0) =
      o.entries.filter fun e => (index e.1).isSome := by
    refine List.Pairwise.insertionSort_eq ((hincreasing.filter _).imp_of_mem fun {a b} ha hb hlt => ?_)
    obtain ⟨ha, hasome⟩ := List.mem_filter.mp ha
    obtain ⟨hb, hbsome⟩ := List.mem_filter.mp hb
    rw [hsome a ha, decide_eq_true_iff] at hasome
    rw [hsome b hb, decide_eq_true_iff] at hbsome
    rw [hindex a ha, hindex b hb, if_pos hasome, if_pos hbsome]
    exact hlt.le
  have hpartition : ∀ {es : List (String × α)}, es.Pairwise (fun e e' => number e < number e') →
      (es.filter fun e => decide (number e < bound)) ++ (es.filter fun e => !decide (number e < bound)) = es := by
    intro es hes
    induction es with
    | nil => rfl
    | cons e es ih =>
      obtain ⟨he, hes⟩ := List.pairwise_cons.mp hes
      rw [List.filter_cons, List.filter_cons]
      by_cases h : number e < bound
      · rw [if_pos (decide_eq_true h), if_neg (by simp [h]), List.cons_append, ih hes]
      · have hnone : es.filter (fun e => decide (number e < bound)) = [] :=
          List.filter_eq_nil_iff.mpr fun e' he' => by
            rw [decide_eq_true_iff]
            exact fun hlt => h ((he e' he').trans hlt)
        have hrest := ih hes
        rw [hnone, List.nil_append] at hrest
        rw [if_neg (by simp [h]), if_pos (by simp [h]), hnone, List.nil_append, hrest]
  rw [ordered, hsorted, List.filter_congr hsome, List.filter_congr fun e he => congrArg not (hsome e he)]
  exact hpartition hincreasing

end Props
