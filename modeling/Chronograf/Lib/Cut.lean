/-
# Programs that are cut short

A program of transactions can be cut short at any of them: the storage fails to
run it, and the program ends as it does on that error, or the process stops
before it. What has been committed by then stays.

Key definitions: `Tx.count`, `Tx.cut`.
Key theorem: `Tx.Throughout.cut`.
-/
import Chronograf.Lib.Tx
import Mathlib.Data.Nat.Notation

namespace Tx

variable {ε σ α β : Type}

/-- How many transactions the program makes when none of them fails. -/
def count : Tx ε σ α → σ → ℕ
  | ret _, _ => 0
  | step eff next, s => (next (some s)).count (eff s) + 1

/-- What a program leaves that is cut short after `n` transactions: the next one
fails, or the process stops. -/
def cut (fails : Bool) : ℕ → Tx ε σ α → σ → σ
  | _, ret _, s => s
  | 0, step _ next, s => if fails then ((next none).run s).2 else s
  | n + 1, step eff next, s => cut fails n (next (some s)) (eff s)

/-- What all transactions do, a part of the run does. -/
theorem Throughout.cut {R : σ → σ → Prop} [IsPreorder σ R] {p : Tx ε σ α} (hp : Throughout R p) (fails : Bool)
    (n : ℕ) (s : σ) : R s (p.cut fails n s) := by
  induction p generalizing n s with
  | ret r => cases n <;> exact refl_of R s
  | step eff next ih =>
    cases n with
    | succ n => exact trans_of R (hp.1 s) (ih (some s) (hp.2 (some s)) n (eff s))
    | zero =>
      cases fails with
      | true => exact (hp.2 none).within s
      | false => exact refl_of R s

/-! ### A program that begins with one transaction -/

section First

variable {io : ε} {s s' : σ} {a : α} {e : ε} {n : ℕ} {fails : Bool}

theorem cut_view_bind {f : σ → Except ε α} {g : α → Tx ε σ β} (h : f s = .ok a) :
    (view io f >>= g).cut fails (n + 1) s = (g a).cut fails n s := by
  show ((ret (f s)).bind g).cut fails n s = _
  rw [h]
  rfl

theorem cut_view_bind_error {f : σ → Except ε α} {g : α → Tx ε σ β} (h : f s = .error e) :
    (view io f >>= g).cut fails n s = s := by
  cases n with
  | zero => cases fails <;> rfl
  | succ n =>
    show ((ret (f s)).bind g).cut fails n s = _
    rw [h]
    cases n <;> rfl

theorem count_view_bind_error {f : σ → Except ε α} {g : α → Tx ε σ β} (h : f s = .error e) :
    (view io f >>= g).count s = 1 := by
  show ((ret (f s)).bind g).count s + 1 = 1
  rw [h]
  rfl

theorem cut_update_bind {f : σ → Except ε (α × σ)} {g : α → Tx ε σ β} (h : f s = .ok (a, s')) :
    (update io f >>= g).cut fails (n + 1) s = (g a).cut fails n s' := by
  show ((ret ((f s).map Prod.fst)).bind g).cut fails n ((update io f).run s).2 = _
  rw [run_update_ok h, h]
  rfl

/-- Nothing is written before the first transaction, and a failure of it is an
error. -/
theorem cut_zero_view_bind {f : σ → Except ε α} {g : α → Tx ε σ β} : (view io f >>= g).cut fails 0 s = s := by
  cases fails <;> rfl

theorem cut_zero_update_bind {f : σ → Except ε (α × σ)} {g : α → Tx ε σ β} :
    (update io f >>= g).cut fails 0 s = s := by
  cases fails <;> rfl

end First

end Tx
