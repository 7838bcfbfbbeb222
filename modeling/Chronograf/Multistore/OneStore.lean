/-
# A stack of stores as one store

What the store over stores does, compared with what one store would do: `Add`
tells the truth, `Get` and `All` agree, an update is seen and a deleted record
is gone. None of this holds of every stack. `Add` reports success when every
store has refused the record, `Get` of the dashboards reports success when no
store has the record, and `Delete` stops at the first store that deletes, so a
record of the same ID further down comes to light.

Key definitions: `ActsAsOne`, `held`, `InSight`.
Key theorems: `all_ok`, `succeeds_then`, `stack_calls_iff`.
-/
import Chronograf.Multistore.Stores

namespace Chronograf
namespace Multistore

open Fallback

variable {ρ ι : Type} [Keyed ρ ι] {ctx : Context} {cs pre post : List (Component ρ ι)}
  {c : Component ρ ι} {i : ι} {r : ρ} {zero : ρ} {m : Methods ρ ι}

/-! ### One store -/

/-- `Add` succeeds only if some store has stored the record. -/
def AddStores (m : Methods ρ ι) (ctx : Context) (r : ρ) (cs : List (Component ρ ι)) : Prop :=
  ∀ r', (m.add ctx r cs).1 = .ok r' → ∃ c ∈ cs, (c.add ctx r).1 = .ok r' ∧
    (c.add ctx r).2 ∈ (m.add ctx r cs).2 ∧ (c.add ctx r).2.records (key r') = some r'

/-- When every store lists its records, `Get` finds the ones that `All` lists. -/
def GetAgrees (m : Methods ρ ι) (ctx : Context) (i : ι) (cs : List (Component ρ ι)) : Prop :=
  (∀ c ∈ cs, Succeeds (Component.all ctx) c) →
    ∃ rs, (m.all ctx cs).1 = .ok rs ∧ ∀ r, (m.get ctx i cs).1 = .ok r ↔ r ∈ rs ∧ key r = i

/-- After `Update` has succeeded, `Get` returns the new record. -/
def UpdateSeen (m : Methods ρ ι) (ctx : Context) (r : ρ) (cs : List (Component ρ ι)) : Prop :=
  (m.update ctx r cs).1 = .ok () → (m.get ctx (key r) (m.update ctx r cs).2).1 = .ok r

/-- After `Delete` has succeeded, `Get` returns an error. -/
def DeleteGone (m : Methods ρ ι) (ctx : Context) (r : ρ) (cs : List (Component ρ ι)) : Prop :=
  (m.delete ctx r cs).1 = .ok () → ∃ e, (m.get ctx (key r) (m.delete ctx r cs).2).1 = .error e

structure ActsAsOne (m : Methods ρ ι) (cs : List (Component ρ ι)) : Prop where
  add : ∀ ctx r, AddStores m ctx r cs
  get : ∀ ctx i, GetAgrees m ctx i cs
  update : ∀ ctx r, UpdateSeen m ctx r cs
  delete : ∀ ctx r, DeleteGone m ctx r cs

/-! ### What the stores hold and answer -/

/-- What the first store that has anything under the ID has. -/
def held (i : ι) (cs : List (Component ρ ι)) : Option ρ := cs.findSome? fun c => c.records i

/-- What the first store that does not fail to get the record answers. -/
def answered (ctx : Context) (i : ι) (cs : List (Component ρ ι)) : Option ρ := firstAnswer (Component.get ctx i) cs

/-- Of the stores `pre`, `c` and `post`, in this order, the first to answer for
the record's ID answers with the record, where `c` has the record. -/
def InSight (ctx : Context) (r : ρ) (pre : List (Component ρ ι)) (c : Component ρ ι)
    (post : List (Component ρ ι)) : Prop :=
  answered ctx (key r) pre = some r ∨
    answered ctx (key r) pre = none ∧ (Succeeds (Component.get ctx (key r)) c ∨ answered ctx (key r) post = some r)

theorem get_ok {r' : ρ} (h : (c.get ctx i).1 = .ok r') : c.records i = some r' := c.keepsMap.get_ok h

theorem key_of_records (h : c.records i = some r) : key r = i := c.keepsMap.keyed h

theorem key_of_held (h : held i cs = some r) : key r = i := by
  obtain ⟨c, -, hc⟩ := List.exists_of_findSome?_eq_some h
  exact key_of_records hc

theorem answered_after (hc : c.records (key r) = some r) :
    answered ctx (key r) (pre ++ c :: post) = some r ↔ InSight ctx r pre c post := by
  unfold InSight answered
  rw [firstAnswer_append]
  rcases hpre : firstAnswer (Component.get ctx (key r)) pre with _ | r'
  · rw [Option.none_or]
    rcases hget : (c.get ctx (key r)).1 with e | r'
    · have hno : ¬ Succeeds (Component.get ctx (key r)) c := not_succeeds_iff.mpr ⟨e, hget⟩
      rw [firstAnswer_cons_error hget]
      simp [hno]
    · have hr : r' = r := Option.some.inj ((get_ok hget).symm.trans hc)
      have hyes : Succeeds (Component.get ctx (key r)) c := ⟨r', hget⟩
      rw [firstAnswer_cons_ok hget, hr]
      simp [hyes]
  · rw [Option.some_or]
    simp

/-! ### `All` -/

section All

variable [DecidableEq ι]

/-- The listing so far has the records of the map `f`. -/
structure Lists (l : Listing ρ ι) (f : ι → Option ρ) : Prop where
  all : ∀ r, r ∈ l.all ↔ f (key r) = some r
  set : ∀ k, k ∈ l.set ↔ (f k).isSome

theorem Lists.add {l : Listing ρ ι} {f : ι → Option ρ} (h : Lists l f) (r : ρ) :
    Lists (l.add r) fun k => (f k).or (if key r = k then some r else none) := by
  unfold Listing.add
  by_cases hr : key r ∈ l.set
  · have hf : ∀ k, (f k).or (if key r = k then some r else none) = f k := by
      intro k
      by_cases hk : key r = k
      · subst hk
        obtain ⟨r', hr'⟩ := Option.isSome_iff_exists.mp ((h.set _).mp hr)
        rw [hr', Option.some_or]
      · rw [if_neg hk, Option.or_none]
    rw [if_pos hr]
    simp only [hf]
    exact h
  · have hnone : f (key r) = none := by
      rw [h.set] at hr
      simpa using hr
    rw [if_neg hr]
    constructor
    · intro r'
      rw [List.mem_append, List.mem_singleton, h.all]
      by_cases hk : key r = key r'
      · rw [← hk, hnone, if_pos rfl]
        simp [eq_comm]
      · have hne : r' ≠ r := fun he => hk (by rw [he])
        rw [if_neg hk, Option.or_none]
        simp [hne]
    · intro k
      rw [List.mem_append, List.mem_singleton, h.set]
      by_cases hk : key r = k
      · simp [hk]
      · rw [if_neg hk, Option.or_none]
        simp [Ne.symm hk]

theorem Lists.foldl_add {l : Listing ρ ι} {f : ι → Option ρ} (h : Lists l f) (rs : List ρ) :
    Lists (rs.foldl Listing.add l) fun k => (f k).or (rs.find? fun r => key r = k) := by
  induction rs generalizing l f with
  | nil => simpa using h
  | cons r rs ih =>
    have heq : (fun k => (f k).or ((r :: rs).find? fun r => key r = k)) =
        fun k => ((f k).or (if key r = k then some r else none)).or (rs.find? fun r => key r = k) := by
      funext k
      rw [List.find?_cons, Option.or_assoc]
      by_cases hk : key r = k <;> simp [hk]
    rw [List.foldl_cons, heq]
    exact ih (h.add r)

theorem find_of_all {rs : List ρ} (h : (c.all ctx).1 = .ok rs) (k : ι) :
    (rs.find? fun r => key r = k) = c.records k := by
  have hmem : ∀ r, r ∈ rs ↔ c.records (key r) = some r := c.keepsMap.all_ok h
  rcases hf : rs.find? (fun r => key r = k) with _ | r
  · rw [List.find?_eq_none] at hf
    rcases hr : c.records k with _ | r
    · rfl
    · obtain rfl := key_of_records hr
      exact absurd (hf r ((hmem r).mpr hr)) (by simp)
  · have hk : key r = k := by simpa using List.find?_some hf
    have hr := (hmem r).mp (List.mem_of_find?_eq_some hf)
    rw [← hk, hr]

/-- The loop over stores that all list their records. -/
theorem Lists.foldl_next {l : Listing ρ ι} {f : ι → Option ρ} (h : Lists l f)
    (hall : ∀ c ∈ cs, Succeeds (Component.all ctx) c) :
    Lists (cs.foldl (fun (l : Listing ρ ι) c => l.next (c.all ctx).1) l) fun k => (f k).or (held k cs) := by
  induction cs generalizing l f with
  | nil => simpa [held] using h
  | cons c cs ih =>
    obtain ⟨hc, hcs⟩ := List.forall_mem_cons.mp hall
    obtain ⟨rs, hrs⟩ := hc
    have hl : Lists (l.next (c.all ctx).1) fun k => (f k).or (c.records k) := by
      rw [hrs]
      simp only [← find_of_all hrs]
      exact (⟨h.all, h.set⟩ : Lists { l with ok := true, err := none } f).foldl_add rs
    have heq : (fun k => (f k).or (held k (c :: cs))) = fun k => ((f k).or (c.records k)).or (held k cs) := by
      funext k
      rw [Option.or_assoc, held, List.findSome?_cons]
      rcases c.records k with _ | r <;> rfl
    rw [List.foldl_cons, heq]
    exact ih hl hcs

theorem ok_foldl_add (l : Listing ρ ι) (rs : List ρ) : (rs.foldl Listing.add l).ok = l.ok := by
  induction rs generalizing l with
  | nil => rfl
  | cons r rs ih =>
    rw [List.foldl_cons, ih, Listing.add]
    split <;> rfl

theorem result_foldl_next {l : Listing ρ ι} (hl : l.ok = true ∨ l.all = [] ∧ l.err = none)
    (hall : ∀ c ∈ cs, Succeeds (Component.all ctx) c) :
    (cs.foldl (fun (l : Listing ρ ι) c => l.next (c.all ctx).1) l).result =
      .ok (cs.foldl (fun (l : Listing ρ ι) c => l.next (c.all ctx).1) l).all := by
  induction cs generalizing l with
  | nil =>
    rw [List.foldl_nil, Listing.result]
    rcases hl with hl | ⟨hl, he⟩
    · rw [if_pos hl]
    · rw [hl, he]
      split <;> rfl
  | cons c cs ih =>
    obtain ⟨⟨rs, hrs⟩, hcs⟩ := List.forall_mem_cons.mp hall
    refine ih (.inl ?_) hcs
    show (l.next (c.all ctx).1).ok = true
    rw [hrs]
    exact ok_foldl_add _ rs

/-- When every store lists its records, `All` lists what each ID's first store
has. -/
theorem all_ok (hall : ∀ c ∈ cs, Succeeds (Component.all ctx) c) :
    ∃ rs, (all ctx cs).1 = .ok rs ∧ ∀ r, r ∈ rs ∧ key r = i ↔ held i cs = some r := by
  refine ⟨_, result_foldl_next (.inr ⟨rfl, rfl⟩) hall, fun r => ?_⟩
  have hstart : Lists (Listing.start : Listing ρ ι) fun _ => none :=
    ⟨fun r => by simp [Listing.start], fun k => by simp [Listing.start]⟩
  rw [(hstart.foldl_next hall).all r, Option.none_or]
  constructor
  · rintro ⟨h, rfl⟩
    exact h
  · intro h
    obtain rfl := key_of_held h
    exact ⟨h, rfl⟩

end All

/-! ### The other methods -/

variable {last : Except (Option Error) ρ → Except Error ρ}

theorem get_fst : (get last ctx i cs).1 = last (tryEach (Component.get ctx i) none cs).1 := rfl

theorem get_of_answered (h : answered ctx i cs = some r) :
    (tryEach (Component.get ctx i) none cs).1 = .ok r := tryEach_answer.mpr h

theorem get_of_not_answered (h : answered ctx i cs = none) :
    ∃ e, (tryEach (Component.get ctx i) none cs).1 = .error e :=
  (tryEach_error_iff _).mpr (firstAnswer_eq_none.mp h)

/-- `Get` as the sources have it. -/
theorem get_orError (hcs : cs ≠ []) : (get (orError zero) ctx i cs).1 = .ok r ↔ answered ctx i cs = some r := by
  rw [get_fst]
  rcases h : answered ctx i cs with _ | r'
  · obtain ⟨_ | e, he⟩ := get_of_not_answered h
    · exact absurd (tryEach_error_some he).1 hcs
    · rw [he]
      simp [orError]
  · rw [get_of_answered h]
    simp [orError]

theorem get_orError_error (hcs : cs ≠ []) :
    (∃ e, (get (orError zero) ctx i cs).1 = .error e) ↔ answered ctx i cs = none := by
  rcases h : (get (orError zero) ctx i cs).1 with e | r
  · rcases ha : answered ctx i cs with _ | r
    · simp
    · rw [(get_orError hcs).mpr ha] at h
      cases h
  · rw [(get_orError hcs).mp h]
    simp

/-- `Get` as the dashboards have it. -/
theorem get_orNil : (get (orNil zero) ctx i cs).1 = .ok ((answered ctx i cs).getD zero) := by
  rw [get_fst]
  rcases h : answered ctx i cs with _ | r'
  · obtain ⟨e, he⟩ := get_of_not_answered h
    rw [he]
    rfl
  · rw [get_of_answered h]
    rfl

theorem add_iff (hadd : m.add = add zero) :
    AddStores m ctx r cs ↔ ∃ c ∈ cs, Succeeds (Component.add ctx r) c := by
  unfold AddStores
  rw [hadd]
  constructor
  · intro h
    by_contra hno
    push Not at hno
    obtain ⟨e, he⟩ := (tryEach_error_iff none).mpr hno
    have hzero : (add zero ctx r cs).1 = .ok zero := by
      show orNil zero (tryEach (Component.add ctx r) none cs).1 = _
      rw [he]
      rfl
    obtain ⟨c, hc, hok, -⟩ := h zero hzero
    exact hno c hc ⟨zero, hok⟩
  · rintro ⟨c, hc, hok⟩ r' hr'
    rcases htry : tryEach (Component.add ctx r) none cs with ⟨e | a, cs'⟩
    · have herr : ∃ e, (tryEach (Component.add ctx r) none cs).1 = .error e := ⟨e, by rw [htry]⟩
      exact absurd hok ((tryEach_error_iff _).mp herr c hc)
    · have ha : a = r' := by
        rw [add, htry] at hr'
        exact Except.ok.inj hr'
      subst ha
      obtain ⟨pre, d, post, hf, hd, rfl⟩ := tryEach_ok_iff.mp htry
      refine ⟨d, by simp [hf.split], hd, ?_, d.keepsMap.add_ok hd⟩
      show _ ∈ (tryEach (Component.add ctx r) none cs).2
      rw [htry]
      simp

theorem records_update (h : Succeeds (Component.update ctx r) c) : (c.update ctx r).2.records (key r) = some r := by
  obtain ⟨⟨⟩, hc⟩ := h
  exact c.keepsMap.update_ok hc

theorem not_succeeds_delete (h : Succeeds (Component.delete ctx r) c) :
    ¬ Succeeds (Component.get ctx (key r)) (c.delete ctx r).2 := by
  obtain ⟨⟨⟩, hc⟩ := h
  rintro ⟨r', hr'⟩
  have hnone : (c.delete ctx r).2.records (key r) = none := c.keepsMap.delete_ok hc
  rw [get_ok hr'] at hnone
  cases hnone

theorem forall_gone {P : Component ρ ι → Prop} (hc : ¬ P c) :
    (∀ d ∈ pre ++ c :: post, ¬ P d) ↔ ∀ d ∈ pre ++ post, ¬ P d := by
  simp only [List.mem_append, List.mem_cons]
  constructor
  · intro h d hd
    exact h d (hd.imp_right .inr)
  · rintro h d (hd | rfl | hd)
    · exact h d (.inl hd)
    · exact hc
    · exact h d (.inr hd)

/-- What holds after `Update` or `Delete` has succeeded: either there is no
store, or the first to succeed has been called. -/
theorem succeeds_then {call : Component ρ ι → Except Error Unit × Component ρ ι} (P : List (Component ρ ι) → Prop) :
    (((tryEach call none cs).map (orError ()) id).1 = .ok () → P ((tryEach call none cs).map (orError ()) id).2) ↔
      (cs = [] → P []) ∧ ∀ pre c post, First call cs pre c post → P (after call pre ++ (call c).2 :: post) := by
  constructor
  · intro h
    constructor
    · rintro rfl
      exact h rfl
    · intro pre c post hf
      obtain ⟨⟨⟩, htry⟩ := hf.tryEach none
      rw [htry] at h
      exact h rfl
  · rintro ⟨hnil, h⟩ hok
    rcases htry : tryEach call none cs with ⟨(_ | e) | ⟨⟩, cs'⟩
    · obtain ⟨rfl, -⟩ := tryEach_error_some (by rw [htry])
      obtain ⟨-, rfl⟩ := Prod.mk.inj htry
      exact hnil rfl
    · rw [htry] at hok
      cases hok
    · obtain ⟨pre, c, post, hf, -, rfl⟩ := tryEach_ok_iff.mp htry
      exact h pre c post hf

section Sources

variable (hm : m.get = get (orError zero))

include hm

/-- Only when no store fails to answer before the one that has the record. -/
theorem getAgrees_orError_iff [DecidableEq ι] (hall : m.all = all) : GetAgrees m ctx i cs ↔
    ((∀ c ∈ cs, Succeeds (Component.all ctx) c) → cs ≠ [] ∧ held i cs = answered ctx i cs) := by
  unfold GetAgrees
  rw [hm, hall]
  refine imp_congr_right fun hlist => ?_
  obtain ⟨rs, hrs, hmem⟩ := all_ok (i := i) hlist
  rw [hrs]
  constructor
  · rintro ⟨rs', heq, h⟩
    obtain rfl := Except.ok.inj heq
    have hne : cs ≠ [] := by
      rintro rfl
      have hzero : zero ∈ rs ∧ key zero = i := (h zero).mp rfl
      exact absurd ((hmem zero).mp hzero) (by simp [held])
    refine ⟨hne, Option.ext fun r => ?_⟩
    rw [← hmem, ← h, get_orError hne]
  · rintro ⟨hne, h⟩
    refine ⟨rs, rfl, fun r => ?_⟩
    rw [get_orError hne, hmem, h]

theorem updateSeen_orError_iff (hupdate : m.update = update) : UpdateSeen m ctx r cs ↔
    (cs = [] → r = zero) ∧ ∀ pre c post, First (Component.update ctx r) cs pre c post →
      InSight ctx r (after (Component.update ctx r) pre) (c.update ctx r).2 post := by
  unfold UpdateSeen
  rw [hm, hupdate]
  refine (succeeds_then fun cs => (get (orError zero) ctx (key r) cs).1 = .ok r).trans (and_congr ?_ ?_)
  · refine imp_congr_right fun _ => ?_
    exact ⟨fun h => (Except.ok.inj h).symm, fun h => by rw [h]; rfl⟩
  · refine forall₃_congr fun pre c post => imp_congr_right fun hf => ?_
    rw [get_orError (by simp), answered_after (records_update hf.succeeds)]

theorem deleteGone_orError_iff (hdelete : m.delete = delete) : DeleteGone m ctx r cs ↔
    cs ≠ [] ∧ ∀ pre c post, First (Component.delete ctx r) cs pre c post →
      ∀ d ∈ after (Component.delete ctx r) pre ++ post, ¬ Succeeds (Component.get ctx (key r)) d := by
  unfold DeleteGone
  rw [hm, hdelete]
  refine (succeeds_then fun cs => ∃ e, (get (orError zero) ctx (key r) cs).1 = .error e).trans (and_congr ?_ ?_)
  · refine imp_congr_right fun _ => ?_
    simp [get, tryEach, orError]
  · refine forall₃_congr fun pre c post => imp_congr_right fun hf => ?_
    rw [get_orError_error (by simp), answered, firstAnswer_eq_none]
    exact forall_gone (not_succeeds_delete hf.succeeds)

end Sources

section Dashboards

variable (hm : m.get = get (orNil zero))

include hm

theorem getAgrees_orNil_iff [DecidableEq ι] (hall : m.all = all) : GetAgrees m ctx i cs ↔
    ((∀ c ∈ cs, Succeeds (Component.all ctx) c) → held i cs = some ((answered ctx i cs).getD zero)) := by
  unfold GetAgrees
  rw [hm, hall]
  refine imp_congr_right fun hlist => ?_
  obtain ⟨rs, hrs, hmem⟩ := all_ok (i := i) hlist
  rw [hrs, get_orNil]
  constructor
  · rintro ⟨rs', heq, h⟩
    obtain rfl := Except.ok.inj heq
    exact (hmem _).mp ((h _).mp rfl)
  · intro h
    refine ⟨rs, rfl, fun r => ?_⟩
    rw [hmem, h, Option.some.injEq, Except.ok.injEq]

theorem updateSeen_orNil_iff (hupdate : m.update = update) : UpdateSeen m ctx r cs ↔
    (cs = [] → r = zero) ∧ ∀ pre c post, First (Component.update ctx r) cs pre c post →
      InSight ctx r (after (Component.update ctx r) pre) (c.update ctx r).2 post ∨
        r = zero ∧ ∀ d ∈ after (Component.update ctx r) pre ++ (c.update ctx r).2 :: post,
          ¬ Succeeds (Component.get ctx (key r)) d := by
  unfold UpdateSeen
  rw [hm, hupdate]
  refine (succeeds_then fun cs => (get (orNil zero) ctx (key r) cs).1 = .ok r).trans (and_congr ?_ ?_)
  · refine imp_congr_right fun _ => ?_
    exact ⟨fun h => (Except.ok.inj h).symm, fun h => by rw [h]; rfl⟩
  · refine forall₃_congr fun pre c post => imp_congr_right fun hf => ?_
    rw [get_orNil, Except.ok.injEq, ← answered_after (records_update hf.succeeds), ← firstAnswer_eq_none, ← answered]
    rcases answered ctx (key r) _ with _ | r'
    · simp [eq_comm]
    · simp

/-- `Get` never says that a dashboard is not there, so what has been deleted is
never seen to be gone. -/
theorem deleteGone_orNil_iff (hdelete : m.delete = delete) : DeleteGone m ctx r cs ↔
    cs ≠ [] ∧ ∀ c ∈ cs, ¬ Succeeds (Component.delete ctx r) c := by
  unfold DeleteGone
  rw [hm, hdelete]
  refine (succeeds_then fun cs => ∃ e, (get (orNil zero) ctx (key r) cs).1 = .error e).trans (and_congr ?_ ?_)
  · refine imp_congr_right fun _ => ?_
    simp [get_orNil]
  · simp only [get_orNil]
    rw [← tryEach_error_iff none]
    constructor
    · intro h
      rcases htry : tryEach (Component.delete ctx r) none cs with ⟨e | a, cs'⟩
      · exact ⟨e, rfl⟩
      · obtain ⟨pre, c, post, hf, -⟩ := tryEach_ok_iff.mp htry
        obtain ⟨e, he⟩ := h pre c post hf
        cases he
    · rintro ⟨e, he⟩ pre c post hf
      obtain ⟨a, ha⟩ := hf.tryEach none
      rw [ha] at he
      cases he

end Dashboards

/-! ### When a stack acts as one store -/

/-- For every call on every stack of stores, whatever fails and when. -/
theorem stack_calls_iff (ctx : Context) :
    (∀ (cs : List (Component Source ℤ)) (r : Source) (i : ℤ),
      (AddStores sourcesStore ctx r cs ↔ ∃ c ∈ cs, Succeeds (Component.add ctx r) c) ∧
      (GetAgrees sourcesStore ctx i cs ↔
        ((∀ c ∈ cs, Succeeds (Component.all ctx) c) → cs ≠ [] ∧ held i cs = answered ctx i cs)) ∧
      (UpdateSeen sourcesStore ctx r cs ↔
        (cs = [] → r = noSource) ∧ ∀ pre c post, First (Component.update ctx r) cs pre c post →
          InSight ctx r (after (Component.update ctx r) pre) (c.update ctx r).2 post) ∧
      (DeleteGone sourcesStore ctx r cs ↔
        cs ≠ [] ∧ ∀ pre c post, First (Component.delete ctx r) cs pre c post →
          ∀ d ∈ after (Component.delete ctx r) pre ++ post, ¬ Succeeds (Component.get ctx (key r)) d)) ∧
    ∀ (cs : List (Component Dashboard ℤ)) (r : Dashboard) (i : ℤ),
      (AddStores dashboardsStore ctx r cs ↔ ∃ c ∈ cs, Succeeds (Component.add ctx r) c) ∧
      (GetAgrees dashboardsStore ctx i cs ↔
        ((∀ c ∈ cs, Succeeds (Component.all ctx) c) → held i cs = some ((answered ctx i cs).getD noDashboard))) ∧
      (UpdateSeen dashboardsStore ctx r cs ↔
        (cs = [] → r = noDashboard) ∧ ∀ pre c post, First (Component.update ctx r) cs pre c post →
          InSight ctx r (after (Component.update ctx r) pre) (c.update ctx r).2 post ∨
            r = noDashboard ∧ ∀ d ∈ after (Component.update ctx r) pre ++ (c.update ctx r).2 :: post,
              ¬ Succeeds (Component.get ctx (key r)) d) ∧
      (DeleteGone dashboardsStore ctx r cs ↔ cs ≠ [] ∧ ∀ c ∈ cs, ¬ Succeeds (Component.delete ctx r) c) := by
  constructor
  · intro cs r i
    exact ⟨add_iff rfl, getAgrees_orError_iff rfl rfl, updateSeen_orError_iff rfl rfl, deleteGone_orError_iff rfl rfl⟩
  · intro cs r i
    exact ⟨add_iff rfl, getAgrees_orNil_iff rfl rfl, updateSeen_orNil_iff rfl rfl, deleteGone_orNil_iff rfl rfl⟩

/-- A store that cannot add is reported to have added, and a source that two
stores have is still there after it has been deleted. -/
theorem refused_and_reported :
    ¬ ((∀ cs, ActsAsOne sourcesStore cs) ∧ ∀ cs, ActsAsOne dashboardsStore cs) ∧
      ¬ AddStores sourcesStore {} noSource [Memdb.component none] ∧
      ¬ DeleteGone sourcesStore {} noSource [Memdb.component (some noSource), Memdb.component (some noSource)] := by
  have hadd : ¬ AddStores sourcesStore {} noSource [Memdb.component none] := by
    intro h
    obtain ⟨c, hc, hok, -⟩ := h noSource rfl
    obtain rfl := List.mem_singleton.mp hc
    cases hok
  refine ⟨fun h => hadd ((h.1 _).add {} noSource), hadd, fun h => ?_⟩
  obtain ⟨e, he⟩ := h rfl
  cases he

end Multistore
end Chronograf
