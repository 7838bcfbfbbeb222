/-
# Programs whose store answers over a network

A program of transactions (`Tx`) can have its store at the other end of a
network. A request is then answered, refused (nothing was done), or its reply
is lost: what it asked for was done, and the program sees a failure all the
same.

Key definitions: `Reply`, `Tx.through`, `Tx.StopsOnFailure`.
Key theorems: `Tx.through_view_bind`, `Tx.through_update_bind`,
`Tx.StopsOnFailure.run_eq`.
-/
import Chronograf.Lib.Tx
import Mathlib.Data.Nat.Notation

/-- What becomes of a request. -/
inductive Reply
  | answered
  | refused
  | lost
  deriving DecidableEq, Repr

namespace Tx

variable {ε σ α β : Type}

/-- The program run with the replies `replies`, one for each request in its order. -/
def through : Tx ε σ α → (ℕ → Reply) → σ → Except ε α × σ
  | ret r, _, s => (r, s)
  | step eff next, replies, s =>
    match replies 0 with
    | .answered => (next (some s)).through (fun n => replies (n + 1)) (eff s)
    | .refused => (next none).through (fun n => replies (n + 1)) s
    | .lost => (next none).through (fun n => replies (n + 1)) (eff s)

/-- With every request answered it is the program run alone. -/
theorem through_answered (p : Tx ε σ α) (s : σ) : p.through (fun _ => .answered) s = p.run s := by
  induction p generalizing s with
  | ret r => rfl
  | step eff next ih => exact ih (some s) (eff s)

section First

variable {io : ε} {replies : ℕ → Reply} {s : σ}

theorem through_ofExcept_bind {r : Except ε α} {g : α → Tx ε σ β} :
    (ofExcept r >>= g).through replies s = match r with
      | .ok a => (g a).through replies s
      | .error e => (.error e, s) := by
  cases r <;> rfl

/-- A request that reads does nothing, whatever becomes of it. -/
theorem through_view_bind {f : σ → Except ε α} {g : α → Tx ε σ β} :
    (view io f >>= g).through replies s = match replies 0, f s with
      | .answered, .ok a => (g a).through (fun n => replies (n + 1)) s
      | .answered, .error e => (.error e, s)
      | _, _ => (.error io, s) := by
  show ((view io f).bind g).through replies s = _
  unfold view
  simp only [Tx.bind, through]
  cases h : replies 0 with
  | answered => cases hf : f s <;> simp [bind, through]
  | refused => rfl
  | lost => rfl

/-- A request that reads, its failure a value. -/
theorem through_attempt_view_bind {ε' : Type} {f : σ → Except ε α} {g : Except ε α → Tx ε' σ β} :
    ((view io f).attempt >>= g).through replies s = match replies 0 with
      | .answered => (g (f s)).through (fun n => replies (n + 1)) s
      | _ => (g (.error io)).through (fun n => replies (n + 1)) s := by
  show ((view io f).attempt.bind g).through replies s = _
  unfold view
  simp only [attempt, Tx.bind, through]
  cases h : replies 0 <;> rfl

/-- A request that writes has done so unless it was refused or ended in an error. -/
theorem through_update_bind {f : σ → Except ε (α × σ)} {g : α → Tx ε σ β} :
    (update io f >>= g).through replies s = match replies 0, f s with
      | .answered, .ok (a, s') => (g a).through (fun n => replies (n + 1)) s'
      | .answered, .error e => (.error e, s)
      | .lost, .ok (_, s') => (.error io, s')
      | _, _ => (.error io, s) := by
  show ((update io f).bind g).through replies s = _
  unfold update
  simp only [Tx.bind, through]
  cases h : replies 0 with
  | answered => cases hf : f s <;> simp [bind, through, Except.map]
  | refused => cases hf : f s <;> rfl
  | lost => cases hf : f s <;> rfl

end First

/-! ### Programs that stop

A program that ends with an error at the first failure it sees has run as if
alone whenever it ends with a value. -/

/-- The program sees no failure but to end with an error. -/
def StopsOnFailure : Tx ε σ α → Prop
  | ret _ => True
  | step _ next => (∃ e, next none = ret (.error e)) ∧ ∀ s, (next (some s)).StopsOnFailure

namespace StopsOnFailure

theorem pure {a : α} : StopsOnFailure (Pure.pure a : Tx ε σ α) := trivial

theorem fail {e : ε} : StopsOnFailure (Tx.fail e : Tx ε σ α) := trivial

theorem view {io : ε} {f : σ → Except ε α} : StopsOnFailure (Tx.view io f) := ⟨⟨io, rfl⟩, fun _ => trivial⟩

theorem update {io : ε} {f : σ → Except ε (α × σ)} : StopsOnFailure (Tx.update io f) := ⟨⟨io, rfl⟩, fun _ => trivial⟩

theorem bind {p : Tx ε σ α} {f : α → Tx ε σ β} (hp : StopsOnFailure p) (hf : ∀ a, StopsOnFailure (f a)) :
    StopsOnFailure (p >>= f) := by
  show StopsOnFailure (p.bind f)
  induction p with
  | ret r =>
    cases r with
    | error e => trivial
    | ok a => exact hf a
  | step eff next ih =>
    obtain ⟨⟨e, he⟩, hnext⟩ := hp
    refine ⟨⟨e, ?_⟩, fun s => ih (some s) (hnext s)⟩
    show (next none).bind f = ret (.error e)
    rw [he]
    rfl

theorem ite {c : Prop} [Decidable c] {p q : Tx ε σ α} (hp : StopsOnFailure p) (hq : StopsOnFailure q) :
    StopsOnFailure (if c then p else q) := by
  split_ifs
  · exact hp
  · exact hq

theorem forEach {f : α → Tx ε σ Unit} (hf : ∀ a, StopsOnFailure (f a)) : ∀ as : List α, StopsOnFailure (Tx.forEach as f)
  | [] => pure
  | a :: as => bind (hf a) fun _ => forEach hf as

theorem run_eq {p : Tx ε σ α} (hp : StopsOnFailure p) {replies : ℕ → Reply} {s s' : σ} {a : α}
    (h : p.through replies s = (.ok a, s')) : p.run s = (.ok a, s') := by
  induction p generalizing replies s with
  | ret r => exact h
  | step eff next ih =>
    obtain ⟨⟨e, he⟩, hnext⟩ := hp
    rw [through] at h
    cases hreply : replies 0 with
    | answered =>
      rw [hreply] at h
      exact ih (some s) (hnext s) h
    | refused =>
      rw [hreply] at h
      simp only [he, through, Prod.mk.injEq, reduceCtorEq, false_and] at h
    | lost =>
      rw [hreply] at h
      simp only [he, through, Prod.mk.injEq, reduceCtorEq, false_and] at h

end StopsOnFailure

end Tx
