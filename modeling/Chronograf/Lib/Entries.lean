/-
# Entries that may be unreadable

A sorted list of entries under keys, each a record or an error. Collecting the
records leaves the errors out, a search ends at the first of them. The search
finds whatever is collected if and only if no error comes before a record and no
two records have the same ID; the entries are then a map from IDs to records, and
stay one when a record is put in at a key that holds none.

Key definitions: `Entries.collect`, `Entries.search`, `Entries.records`, `Orderly`.
Key theorems: `orderly_iff`, `Orderly.records_iff`, `Orderly.insert_record`,
`Orderly.insert_error`, `Orderly.erase`.
-/
import Mathlib.Data.List.Basic
import Mathlib.Logic.Function.Basic

namespace Entries

variable {κ ε ρ ι : Type}

/-- The records; what cannot be read is left out. -/
def collect (es : List (κ × Except ε ρ)) : List ρ := es.filterMap fun e => e.2.toOption

/-- The first record of a kind, unless an error comes before it. -/
def search (p : ρ → Bool) : List (κ × Except ε ρ) → Except ε (Option (ρ × κ))
  | [] => .ok none
  | (_, .error e) :: _ => .error e
  | (k, .ok r) :: es => if p r then .ok (some (r, k)) else search p es

theorem mem_collect {es : List (κ × Except ε ρ)} {r : ρ} : r ∈ collect es ↔ ∃ k, (k, .ok r) ∈ es := by
  simp only [collect, List.mem_filterMap]
  constructor
  · rintro ⟨⟨k, x⟩, hmem, hx⟩
    cases x with
    | error e => cases hx
    | ok r' =>
      cases hx
      exact ⟨k, hmem⟩
  · rintro ⟨k, hmem⟩
    exact ⟨(k, .ok r), hmem, rfl⟩

section Records

variable [DecidableEq ι] (id : ρ → ι)

/-- The record that a search for an ID finds. -/
def records (es : List (κ × Except ε ρ)) (i : ι) : Option ρ :=
  match search (fun r => id r = i) es with
  | .ok (some (r, _)) => some r
  | _ => none

variable {id}

theorem records_eq_iff {es : List (κ × Except ε ρ)} {i : ι} {r : ρ} :
    records id es i = some r ↔ ∃ k, search (fun r => id r = i) es = .ok (some (r, k)) := by
  unfold records
  constructor
  · intro h
    split at h
    · rename_i r' k hsearch
      cases h
      exact ⟨k, hsearch⟩
    · cases h
  · rintro ⟨k, hsearch⟩
    rw [hsearch]

end Records

section Sorted

variable [Ord κ]

/-- The keys are in ascending order. -/
def Sorted (es : List (κ × Except ε ρ)) : Prop := es.Pairwise fun a b => compare a.1 b.1 = .lt

variable (id : ρ → ι)

/-- No error comes before a record, and no two records have the same ID. -/
structure Orderly (es : List (κ × Except ε ρ)) : Prop where
  errors_last : ∀ {k r k' e}, (k, .ok r) ∈ es → (k', .error e) ∈ es → compare k k' = .lt
  distinct : ∀ {k r k' r'}, (k, .ok r) ∈ es → (k', .ok r') ∈ es → id r = id r' → k = k'

/-! ### An entry that is put in or taken out -/

variable {id} {es es' : List (κ × Except ε ρ)} {a : κ}

/-- `es'` is `es` with `new` under `a`. -/
def Inserted (a : κ) (new : Except ε ρ) (es es' : List (κ × Except ε ρ)) : Prop :=
  ∀ k x, (k, x) ∈ es' ↔ k = a ∧ x = new ∨ k ≠ a ∧ (k, x) ∈ es

/-- `es'` is `es` without what was under `a`. -/
def Erased (a : κ) (es es' : List (κ × Except ε ρ)) : Prop := ∀ k x, (k, x) ∈ es' ↔ k ≠ a ∧ (k, x) ∈ es

theorem Orderly.erase (h : Orderly id es) (he : Erased a es es') : Orderly id es' :=
  ⟨fun hr hx => h.errors_last ((he _ _).mp hr).2 ((he _ _).mp hx).2,
    fun hr hr' => h.distinct ((he _ _).mp hr).2 ((he _ _).mp hr').2⟩

/-- A record with an ID that nothing else has, at a key that holds no record and
that no error comes before. -/
theorem Orderly.insert_record (h : Orderly id es) {r : ρ} (hi : Inserted a (.ok r) es es')
    (hfresh : ∀ k r', (k, .ok r') ∈ es → id r' ≠ id r)
    (hfirst : ∀ k e, (k, .error e) ∈ es → k ≠ a → compare a k = .lt) : Orderly id es' := by
  refine ⟨fun {k r₁ k' e} hr he => ?_, fun {k r₁ k' r₂} hr hr' hid => ?_⟩
  · obtain ⟨-, ⟨⟩⟩ | ⟨hk', he⟩ := (hi _ _).mp he
    obtain ⟨rfl, -⟩ | ⟨-, hr⟩ := (hi _ _).mp hr
    · exact hfirst k' e he hk'
    · exact h.errors_last hr he
  · obtain ⟨rfl, ⟨⟩⟩ | ⟨-, hr⟩ := (hi _ _).mp hr
    · obtain ⟨rfl, -⟩ | ⟨-, hr'⟩ := (hi _ _).mp hr'
      · rfl
      · exact absurd hid.symm (hfresh k' r₂ hr')
    · obtain ⟨rfl, ⟨⟩⟩ | ⟨-, hr'⟩ := (hi _ _).mp hr'
      · exact absurd hid (hfresh k r₁ hr)
      · exact h.distinct hr hr' hid

/-- An error that comes after all records, at a key that holds none. -/
theorem Orderly.insert_error (h : Orderly id es) {e : ε} (hi : Inserted a (.error e) es es')
    (hlast : ∀ k r, (k, .ok r) ∈ es → k ≠ a → compare k a = .lt) : Orderly id es' := by
  refine ⟨fun {k r₁ k' e'} hr he => ?_, fun {k r₁ k' r₂} hr hr' hid => ?_⟩
  · obtain ⟨-, ⟨⟩⟩ | ⟨hk, hr⟩ := (hi _ _).mp hr
    obtain ⟨rfl, -⟩ | ⟨-, he⟩ := (hi _ _).mp he
    · exact hlast k r₁ hr hk
    · exact h.errors_last hr he
  · obtain ⟨-, ⟨⟩⟩ | ⟨-, hr⟩ := (hi _ _).mp hr
    obtain ⟨-, ⟨⟩⟩ | ⟨-, hr'⟩ := (hi _ _).mp hr'
    exact h.distinct hr hr' hid

/-! ### Searches -/

variable [Std.LawfulEqOrd κ]

theorem Sorted.eq {es : List (κ × Except ε ρ)} (h : Sorted es) {k : κ} {x y : Except ε ρ} (hx : (k, x) ∈ es)
    (hy : (k, y) ∈ es) : x = y := by
  induction es with
  | nil => cases hx
  | cons e es ih =>
    obtain ⟨hfirst, hrest⟩ := List.pairwise_cons.mp h
    have hirrefl : ∀ z, e = (k, z) → ∀ z', (k, z') ∉ es := by
      rintro z rfl z' hz'
      have hlt : compare k k = .lt := hfirst _ hz'
      simp at hlt
    rcases List.mem_cons.mp hx with rfl | hx
    · rcases List.mem_cons.mp hy with hy | hy
      · cases hy
        rfl
      · exact absurd hy (hirrefl x rfl y)
    · rcases List.mem_cons.mp hy with hy | hy
      · exact absurd hx (hirrefl y hy.symm x)
      · exact ih hrest hx hy

variable [Std.TransOrd κ]

/-- What is found, and that all before it are records of another kind. -/
theorem search_eq_iff {es : List (κ × Except ε ρ)} (h : Sorted es) {p : ρ → Bool} {r : ρ} {k : κ} :
    search p es = .ok (some (r, k)) ↔ (k, .ok r) ∈ es ∧ p r ∧
      ∀ k' x, (k', x) ∈ es → compare k' k = .lt → ∃ r', x = .ok r' ∧ ¬ p r' := by
  induction es with
  | nil => simp [search]
  | cons e es ih =>
    obtain ⟨hfirst, hrest⟩ := List.pairwise_cons.mp h
    have hself : compare k k ≠ .lt := by simp
    obtain ⟨k₁, x | r₁⟩ := e
    · simp only [search, reduceCtorEq, List.mem_cons, Prod.mk.injEq, and_false, false_or, false_iff]
      rintro ⟨hmem, -, hall⟩
      obtain ⟨r', hr', -⟩ := hall k₁ (.error x) (.inl ⟨rfl, rfl⟩) (hfirst _ hmem)
      cases hr'
    · by_cases hp : p r₁
      · simp only [search, hp, if_true, Except.ok.injEq, Option.some.injEq, Prod.mk.injEq, List.mem_cons]
        constructor
        · rintro ⟨rfl, rfl⟩
          refine ⟨.inl ⟨rfl, rfl⟩, hp, ?_⟩
          rintro k' x (⟨rfl, rfl⟩ | hmem) hlt
          · exact absurd hlt hself
          · have hgt := hfirst _ hmem
            exact absurd (Std.TransCmp.lt_trans hgt hlt) hself
        · rintro ⟨⟨hk, hr⟩ | hmem, hpr, hall⟩
          · exact ⟨hr.symm, hk.symm⟩
          · obtain ⟨r', hr', hnot⟩ := hall k₁ (.ok r₁) (.inl ⟨rfl, rfl⟩) (hfirst _ hmem)
            cases hr'
            exact absurd hp hnot
      · simp only [search, hp, List.mem_cons, Prod.mk.injEq]
        rw [if_neg (by simp), ih hrest]
        constructor
        · rintro ⟨hmem, hpr, hall⟩
          refine ⟨.inr hmem, hpr, ?_⟩
          rintro k' x (⟨rfl, rfl⟩ | hx) hlt
          · exact ⟨r₁, rfl, hp⟩
          · exact hall k' x hx hlt
        · rintro ⟨⟨rfl, hr⟩ | hmem, hpr, hall⟩
          · cases hr
            exact absurd hpr hp
          · exact ⟨hmem, hpr, fun k' x hx => hall k' x (.inr hx)⟩

/-! ### Entries as a map -/

variable [DecidableEq ι]

theorem Orderly.search_iff (h : Orderly id es) (hes : Sorted es) {i : ι} {r : ρ} {k : κ} :
    search (fun r => id r = i) es = .ok (some (r, k)) ↔ (k, .ok r) ∈ es ∧ id r = i := by
  rw [search_eq_iff hes]
  constructor
  · rintro ⟨hmem, hid, -⟩
    exact ⟨hmem, by simpa using hid⟩
  · rintro ⟨hmem, rfl⟩
    refine ⟨hmem, by simp, fun k' x hx hlt => ?_⟩
    cases x with
    | error e =>
      have hgt := h.errors_last hmem hx
      exact absurd (Std.TransCmp.lt_trans hgt hlt) (by simp)
    | ok r' =>
      refine ⟨r', rfl, fun hid => ?_⟩
      rw [h.distinct hx hmem (by simpa using hid)] at hlt
      simp at hlt

/-- The entries are orderly if and only if each record is found by its ID. -/
theorem orderly_iff (hes : Sorted es) :
    Orderly id es ↔ ∀ k r, (k, .ok r) ∈ es → search (fun r' => id r' = id r) es = .ok (some (r, k)) := by
  constructor
  · exact fun h k r hmem => (h.search_iff hes).mpr ⟨hmem, rfl⟩
  · intro h
    refine ⟨fun {k r k' e} hr he => ?_, fun {k r k' r'} hr hr' hid => ?_⟩
    · obtain ⟨-, -, hall⟩ := (search_eq_iff hes).mp (h k r hr)
      rcases hcmp : compare k k' with _ | _ | _
      · rfl
      · have hk : k = k' := Std.LawfulEqCmp.eq_of_compare hcmp
        subst hk
        cases hes.eq hr he
      · obtain ⟨r', hr', -⟩ := hall k' _ he (Std.OrientedCmp.lt_of_gt hcmp)
        cases hr'
    · have hfound := h k r hr
      have hfound' := h k' r' hr'
      rw [hid, hfound'] at hfound
      cases hfound
      rfl

theorem Orderly.records_iff (h : Orderly id es) (hes : Sorted es) {i : ι} {r : ρ} :
    records id es i = some r ↔ (∃ k, (k, .ok r) ∈ es) ∧ id r = i := by
  rw [records_eq_iff, exists_congr fun k => h.search_iff hes, exists_and_right]

/-- What is collected of orderly entries is what is found. -/
theorem Orderly.mem_collect_iff (h : Orderly id es) (hes : Sorted es) {r : ρ} :
    r ∈ collect es ↔ records id es (id r) = some r := by
  rw [mem_collect, h.records_iff hes, and_iff_left rfl]

/-- Two orderly lists with the same records are the same map. -/
theorem Orderly.records_ext (h : Orderly id es) (hes : Sorted es) (h' : Orderly id es') (hes' : Sorted es')
    {i : ι} (hiff : ∀ r, id r = i → ((∃ k, (k, .ok r) ∈ es') ↔ ∃ k, (k, .ok r) ∈ es)) :
    records id es' i = records id es i := by
  refine Option.ext fun r => ?_
  rw [h'.records_iff hes', h.records_iff hes]
  exact and_congr_left fun hid => hiff r hid

/-! ### The map without an entry, and with one more -/

theorem Orderly.records_erase (h : Orderly id es) (hes : Sorted es) (hes' : Sorted es') (he : Erased a es es') {r : ρ}
    (hr : (a, .ok r) ∈ es) : records id es' = Function.update (records id es) (id r) none := by
  have h' := h.erase he
  funext i
  by_cases hi : i = id r
  · subst hi
    rw [Function.update_self, Option.eq_none_iff_forall_ne_some]
    intro r' hr'
    obtain ⟨⟨k, hk⟩, hid⟩ := (h'.records_iff hes').mp hr'
    obtain ⟨hne, hmem⟩ := (he _ _).mp hk
    exact hne (h.distinct hmem hr hid)
  · rw [Function.update_of_ne hi]
    refine h.records_ext hes h' hes' fun r' hid => exists_congr fun k => ?_
    rw [he]
    refine and_iff_right_of_imp fun hmem hk => ?_
    subst hk
    cases hes.eq hmem hr
    exact hi hid.symm

theorem Orderly.records_insert (h : Orderly id es) (hes : Sorted es) {r : ρ} (hi : Inserted a (.ok r) es es')
    (h' : Orderly id es') (hes' : Sorted es') (hvacant : ∀ r', (a, .ok r') ∉ es) :
    records id es' = Function.update (records id es) (id r) (some r) := by
  funext i
  by_cases hir : i = id r
  · subst hir
    rw [Function.update_self, h'.records_iff hes']
    exact ⟨⟨a, (hi _ _).mpr (.inl ⟨rfl, rfl⟩)⟩, rfl⟩
  · rw [Function.update_of_ne hir]
    refine h.records_ext hes h' hes' fun r' hid => exists_congr fun k => ?_
    rw [hi]
    constructor
    · rintro (⟨-, ⟨⟩⟩ | ⟨-, hmem⟩)
      · exact absurd hid.symm hir
      · exact hmem
    · intro hmem
      refine .inr ⟨fun hk => ?_, hmem⟩
      subst hk
      exact hvacant r' hmem

theorem Orderly.records_insert_error (h : Orderly id es) (hes : Sorted es) {e : ε} (hi : Inserted a (.error e) es es')
    (h' : Orderly id es') (hes' : Sorted es') (hvacant : ∀ r, (a, .ok r) ∉ es) : records id es' = records id es := by
  funext i
  refine h.records_ext hes h' hes' fun r' _ => exists_congr fun k => ?_
  rw [hi]
  constructor
  · rintro (⟨-, ⟨⟩⟩ | ⟨-, hmem⟩)
    exact hmem
  · intro hmem
    refine .inr ⟨fun hk => ?_, hmem⟩
    subst hk
    exact hvacant r' hmem

end Sorted

end Entries
