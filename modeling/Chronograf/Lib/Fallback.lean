/-
# Trying one after the other

A call that may fail, on a list of objects with a state of their own: it is
tried on each in turn until one succeeds. The objects tried without success
have been called too; those after the one that succeeded have not.

Key definitions: `Fallback.Succeeds`, `Fallback.tryEach`, `Fallback.First`,
`Fallback.firstAnswer`.
Key theorems: `Fallback.tryEach_ok_iff`, `Fallback.tryEach_error_iff`,
`Fallback.tryEach_answer`.
-/
import Mathlib.Tactic.Basic
import Mathlib.Data.List.Basic

namespace Fallback

universe u

variable {ε α : Type} {γ : Type u} (call : γ → Except ε α × γ)

def Succeeds (c : γ) : Prop := ∃ a, (call c).1 = .ok a

instance (c : γ) : Decidable (Succeeds call c) :=
  match h : (call c).1 with
  | .ok a => isTrue ⟨a, h⟩
  | .error e => isFalse fun ⟨a, ha⟩ => by rw [h] at ha; cases ha

/-- The result of the first success, or else the error of the last call (`err`
when there has been none), and what has become of the objects. -/
def tryEach : Option ε → List γ → Except (Option ε) α × List γ
  | err, [] => (.error err, [])
  | _, c :: cs =>
    match call c with
    | (.ok a, c') => (.ok a, c' :: cs)
    | (.error e, c') => ((tryEach (some e) cs).1, c' :: (tryEach (some e) cs).2)

/-- What the first object to succeed answers. -/
def firstAnswer : List γ → Option α
  | [] => none
  | c :: cs =>
    match (call c).1 with
    | .ok a => some a
    | .error _ => firstAnswer cs

/-- `c` is the first of the objects on which the call succeeds: the call fails
on those before it, `pre`. -/
structure First (cs pre : List γ) (c : γ) (post : List γ) : Prop where
  split : cs = pre ++ c :: post
  fail : ∀ p ∈ pre, ¬ Succeeds call p
  succeeds : Succeeds call c

/-- The objects, each having been called. -/
def after (cs : List γ) : List γ := cs.map fun c => (call c).2

variable {call} {c : γ} {cs pre post : List γ} {a : α} {e : ε} {err : Option ε}

theorem First.cons {d : γ} (hf : First call cs pre c post) (hd : ¬ Succeeds call d) :
    First call (d :: cs) (d :: pre) c post :=
  ⟨congrArg (List.cons d) hf.split, List.forall_mem_cons.mpr ⟨hd, hf.fail⟩, hf.succeeds⟩

theorem not_succeeds_iff : ¬ Succeeds call c ↔ ∃ e, (call c).1 = .error e := by
  rcases h : (call c).1 with e | a
  · simp [Succeeds, h]
  · simp [Succeeds, h]

theorem tryEach_cons_ok (h : (call c).1 = .ok a) : tryEach call err (c :: cs) = (.ok a, (call c).2 :: cs) := by
  rw [tryEach, show call c = (.ok a, (call c).2) from Prod.ext h rfl]

theorem tryEach_cons_error (h : (call c).1 = .error e) :
    tryEach call err (c :: cs) = ((tryEach call (some e) cs).1, (call c).2 :: (tryEach call (some e) cs).2) := by
  rw [tryEach, show call c = (.error e, (call c).2) from Prod.ext h rfl]

theorem firstAnswer_cons_ok (h : (call c).1 = .ok a) : firstAnswer call (c :: cs) = some a := by
  rw [firstAnswer, h]

theorem firstAnswer_cons_error (h : (call c).1 = .error e) : firstAnswer call (c :: cs) = firstAnswer call cs := by
  rw [firstAnswer, h]

/-- The call succeeds exactly when it does on some object, and then every
object up to that one has been called and no other. -/
theorem tryEach_ok_iff {cs' : List γ} : tryEach call err cs = (.ok a, cs') ↔
    ∃ pre c post, First call cs pre c post ∧ (call c).1 = .ok a ∧ cs' = after call pre ++ (call c).2 :: post := by
  induction cs generalizing err cs' with
  | nil =>
    constructor
    · intro h
      cases h
    · rintro ⟨pre, c, post, hf, -⟩
      exact absurd hf.split (by simp)
  | cons c cs ih =>
    rcases h : (call c).1 with e | b
    · rw [tryEach_cons_error h]
      constructor
      · intro heq
        obtain ⟨h1, rfl⟩ := Prod.mk.inj heq
        obtain ⟨pre, d, post, hf, hd, htl⟩ := ih.mp (Prod.ext h1 rfl)
        refine ⟨c :: pre, d, post, hf.cons (not_succeeds_iff.mpr ⟨e, h⟩), hd, ?_⟩
        exact congrArg (List.cons (call c).2) htl
      · rintro ⟨pre, d, post, hf, hd, rfl⟩
        cases pre with
        | nil =>
          obtain ⟨rfl, rfl⟩ := List.cons.inj hf.split
          rw [h] at hd
          cases hd
        | cons p pre =>
          obtain ⟨rfl, rfl⟩ := List.cons.inj hf.split
          rw [ih.mpr ⟨pre, d, post, ⟨rfl, (List.forall_mem_cons.mp hf.fail).2, hf.succeeds⟩, hd, rfl⟩]
          rfl
    · rw [tryEach_cons_ok h]
      constructor
      · intro heq
        obtain ⟨h1, rfl⟩ := Prod.mk.inj heq
        obtain rfl := Except.ok.inj h1
        exact ⟨[], c, cs, ⟨rfl, by simp, b, h⟩, h, rfl⟩
      · rintro ⟨pre, d, post, hf, hd, rfl⟩
        cases pre with
        | nil =>
          obtain ⟨rfl, rfl⟩ := List.cons.inj hf.split
          rw [h] at hd
          rw [Except.ok.inj hd]
          rfl
        | cons p pre =>
          obtain ⟨rfl, rfl⟩ := List.cons.inj hf.split
          exact absurd ⟨b, h⟩ ((List.forall_mem_cons.mp hf.fail).1)

theorem First.tryEach (hf : First call cs pre c post) (err : Option ε) :
    ∃ a, tryEach call err cs = (.ok a, after call pre ++ (call c).2 :: post) := by
  obtain ⟨a, ha⟩ := hf.succeeds
  exact ⟨a, tryEach_ok_iff.mpr ⟨pre, c, post, hf, ha, rfl⟩⟩

/-- It fails exactly when it fails on every object. -/
theorem tryEach_error_iff (err : Option ε) : (∃ e, (tryEach call err cs).1 = .error e) ↔ ∀ c ∈ cs, ¬ Succeeds call c := by
  induction cs generalizing err with
  | nil => simp [tryEach]
  | cons c cs ih =>
    rcases h : (call c).1 with e | b
    · rw [tryEach_cons_error h, ih, List.forall_mem_cons]
      exact ⟨fun hcs => ⟨not_succeeds_iff.mpr ⟨e, h⟩, hcs⟩, fun hcs => hcs.2⟩
    · rw [tryEach_cons_ok h]
      constructor
      · rintro ⟨e, he⟩
        cases he
      · intro hcs
        exact absurd ⟨b, h⟩ (hcs c List.mem_cons_self)

/-- Only the error of an empty list of objects is missing. -/
theorem tryEach_error_some (herr : (tryEach call err cs).1 = .error none) : cs = [] ∧ err = none := by
  induction cs generalizing err with
  | nil =>
    rw [tryEach] at herr
    exact ⟨rfl, Except.error.inj herr⟩
  | cons c cs ih =>
    rcases h : (call c).1 with e | b
    · rw [tryEach_cons_error h] at herr
      exact absurd (ih herr).2 (by simp)
    · rw [tryEach_cons_ok h] at herr
      cases herr

theorem tryEach_answer : (tryEach call err cs).1 = .ok a ↔ firstAnswer call cs = some a := by
  induction cs generalizing err with
  | nil => simp [tryEach, firstAnswer]
  | cons c cs ih =>
    rcases h : (call c).1 with e | b
    · rw [tryEach_cons_error h, firstAnswer_cons_error h]
      exact ih
    · rw [tryEach_cons_ok h, firstAnswer_cons_ok h]
      simp

theorem firstAnswer_eq_none : firstAnswer call cs = none ↔ ∀ c ∈ cs, ¬ Succeeds call c := by
  induction cs with
  | nil => simp [firstAnswer]
  | cons c cs ih =>
    rcases h : (call c).1 with e | b
    · rw [firstAnswer_cons_error h, ih, List.forall_mem_cons]
      exact ⟨fun hcs => ⟨not_succeeds_iff.mpr ⟨e, h⟩, hcs⟩, fun hcs => hcs.2⟩
    · rw [firstAnswer_cons_ok h, List.forall_mem_cons]
      simp [Succeeds, h]

theorem firstAnswer_append : firstAnswer call (pre ++ post) = (firstAnswer call pre).or (firstAnswer call post) := by
  induction pre with
  | nil => rfl
  | cons c pre ih =>
    rcases h : (call c).1 with e | b
    · rw [List.cons_append, firstAnswer_cons_error h, firstAnswer_cons_error h, ih]
    · rw [List.cons_append, firstAnswer_cons_ok h, firstAnswer_cons_ok h, Option.some_or]

end Fallback
