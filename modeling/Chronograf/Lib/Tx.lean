/-
# Programs that use a store in transactions

A program of `Tx ε σ α` reaches its store `σ` only through transactions: it
runs one, looks at the state the transaction found, and goes on. It ends with
a value or with an error of `ε`. A transaction happens at once or, when the
storage fails, not at all (`none` is what the program then sees), so the same
program has a sequential meaning (`Tx.run`) and, in `Lib.Interleaving`, a
meaning among other programs.

Key definitions: `Tx`, `Tx.view`, `Tx.update`, `Tx.run`, `Tx.Within`,
`Tx.Throughout`.
Key theorems: `Tx.run_bind`, `Tx.leaves_mapError_bind`, `Tx.Within.bind`,
`Tx.Within.forEach`.
-/
import Mathlib.Tactic.Basic
import Mathlib.Tactic.Cases
import Mathlib.Order.Defs.Unbundled
import Mathlib.Tactic.SplitIfs

/-- A program over a store `σ`: it has ended, or it runs a transaction with the
effect `eff` and goes on from the state the transaction found (`none`: the
storage failed and nothing was written). -/
inductive Tx (ε σ α : Type) : Type
  | ret (r : Except ε α)
  | step (eff : σ → σ) (next : Option σ → Tx ε σ α)

namespace Tx

variable {ε ε' σ α β γ : Type}

/-! ### The programs -/

def bind : Tx ε σ α → (α → Tx ε σ β) → Tx ε σ β
  | ret (.ok a), f => f a
  | ret (.error e), _ => ret (.error e)
  | step eff next, f => step eff fun o => (next o).bind f

instance : Monad (Tx ε σ) where
  pure a := ret (.ok a)
  bind := bind

/-- The program that ends in the error `e`. -/
def fail (e : ε) : Tx ε σ α := ret (.error e)

/-- The program, its error turned into a value to look at. -/
def attempt : Tx ε σ α → Tx ε' σ (Except ε α)
  | ret r => ret (.ok r)
  | step eff next => step eff fun o => (next o).attempt

/-- The program with its errors rewritten. -/
def mapError (f : ε → ε') : Tx ε σ α → Tx ε' σ α
  | ret (.ok a) => ret (.ok a)
  | ret (.error e) => ret (.error (f e))
  | step eff next => step eff fun o => (next o).mapError f

/-- A value that may be an error, as a program. -/
def ofExcept (r : Except ε α) : Tx ε σ α := ret r

/-- A transaction that reads. -/
def view (io : ε) (f : σ → Except ε α) : Tx ε σ α :=
  step id fun
    | some s => ret (f s)
    | none => ret (.error io)

/-- A transaction that writes: it commits what `f` computes, and is rolled back
when `f` ends in an error. -/
def update (io : ε) (f : σ → Except ε (α × σ)) : Tx ε σ α :=
  step
    (fun s => match f s with
      | .ok (_, s') => s'
      | .error _ => s)
    fun
      | some s => ret ((f s).map Prod.fst)
      | none => ret (.error io)

/-- `f` on each element, in order, up to the first error. -/
def forEach : List α → (α → Tx ε σ Unit) → Tx ε σ Unit
  | [], _ => pure ()
  | a :: as, f => do f a; forEach as f

theorem ret_ok_bind (a : α) (f : α → Tx ε σ β) : (ret (.ok a) >>= f) = f a := rfl

theorem bind_assoc (p : Tx ε σ α) (f : α → Tx ε σ β) (g : β → Tx ε σ γ) :
    (p >>= f) >>= g = p >>= fun a => f a >>= g := by
  show (p.bind f).bind g = p.bind fun a => (f a).bind g
  induction p with
  | ret r => cases r <;> rfl
  | step eff next ih =>
    show step eff _ = step eff _
    congr 1
    funext o
    exact ih o

theorem bind_unit (p : Tx ε σ Unit) : (p >>= fun _ => pure ()) = p := by
  show p.bind (fun _ => ret (.ok ())) = p
  induction p with
  | ret r => cases r <;> rfl
  | step eff next ih =>
    show step eff _ = step eff _
    congr 1
    funext o
    exact ih o

theorem forEach_singleton (a : α) (f : α → Tx ε σ Unit) : forEach [a] f = f a := bind_unit (f a)

/-- Errors may be rewritten in the parts. -/
theorem mapError_bind (p : Tx ε σ α) (f : α → Tx ε σ β) (g : ε → ε') :
    (p >>= f).mapError g = p.mapError g >>= fun a => (f a).mapError g := by
  show (p.bind f).mapError g = (p.mapError g).bind fun a => (f a).mapError g
  induction p with
  | ret r => cases r <;> rfl
  | step eff next ih =>
    show step eff _ = step eff _
    congr 1
    funext o
    exact ih o

/-! ### Running a program alone -/

/-- The program run with nobody else at the store and no storage failure. -/
def run : Tx ε σ α → σ → Except ε α × σ
  | ret r, s => (r, s)
  | step eff next, s => (next (some s)).run (eff s)

@[simp] theorem run_ret (r : Except ε α) (s : σ) : (ret r).run s = (r, s) := rfl

@[simp] theorem run_step (eff : σ → σ) (next : Option σ → Tx ε σ α) (s : σ) :
    (step eff next).run s = (next (some s)).run (eff s) := rfl

@[simp] theorem run_pure (a : α) (s : σ) : (pure a : Tx ε σ α).run s = (.ok a, s) := rfl

@[simp] theorem run_fail (e : ε) (s : σ) : (fail e : Tx ε σ α).run s = (.error e, s) := rfl

@[simp] theorem run_ofExcept (r : Except ε α) (s : σ) : (ofExcept r).run s = (r, s) := rfl

@[simp] theorem run_view (io : ε) (f : σ → Except ε α) (s : σ) : (view io f).run s = (f s, s) := rfl

/-- A transaction that commits. -/
theorem run_update_ok {io : ε} {f : σ → Except ε (α × σ)} {s s' : σ} {a : α} (h : f s = .ok (a, s')) :
    (update io f).run s = (.ok a, s') := by
  simp [update, h, Except.map]

/-- A transaction that is rolled back. -/
theorem run_update_error {io : ε} {f : σ → Except ε (α × σ)} {s : σ} {e : ε} (h : f s = .error e) :
    (update io f).run s = (.error e, s) := by
  simp [update, h, Except.map]

/-- A program run after another one: it starts from the state the first one
leaves, unless that ended in an error. -/
theorem run_bind (p : Tx ε σ α) (f : α → Tx ε σ β) (s : σ) :
    (p >>= f).run s = match p.run s with
      | (.ok a, s') => (f a).run s'
      | (.error e, s') => (.error e, s') := by
  show (p.bind f).run s = _
  induction p generalizing s with
  | ret r => cases r <;> rfl
  | step eff next ih => exact ih (some s) (eff s)

theorem run_bind_ok {p : Tx ε σ α} {f : α → Tx ε σ β} {s s' : σ} {a : α} (h : p.run s = (.ok a, s')) :
    (p >>= f).run s = (f a).run s' := by
  rw [run_bind, h]

theorem run_bind_error {p : Tx ε σ α} {f : α → Tx ε σ β} {s s' : σ} {e : ε} (h : p.run s = (.error e, s')) :
    (p >>= f).run s = (.error e, s') := by
  rw [run_bind, h]

theorem of_run_bind_ok {p : Tx ε σ α} {f : α → Tx ε σ β} {s s' : σ} {b : β} (h : (p >>= f).run s = (.ok b, s')) :
    ∃ a s₁, p.run s = (.ok a, s₁) ∧ (f a).run s₁ = (.ok b, s') := by
  rw [run_bind] at h
  rcases hp : p.run s with ⟨e | a, s₁⟩
  · rw [hp] at h
    exact absurd (Prod.mk.inj h).1 nofun
  · rw [hp] at h
    exact ⟨a, s₁, rfl, h⟩

/-- A program run for its effect only. -/
theorem run_discard (p : Tx ε σ α) (s : σ) :
    ((do let _ ← p; pure ()) : Tx ε σ Unit).run s = ((p.run s).1.map fun _ => (), (p.run s).2) := by
  rw [run_bind]
  rcases p.run s with ⟨⟨e⟩ | ⟨a⟩, s'⟩ <;> rfl

theorem run_attempt (p : Tx ε σ α) (s : σ) :
    (p.attempt : Tx ε' σ _).run s = (.ok (p.run s).1, (p.run s).2) := by
  induction p generalizing s with
  | ret r => rfl
  | step eff next ih => exact ih (some s) (eff s)

theorem run_mapError (f : ε → ε') (p : Tx ε σ α) (s : σ) :
    (p.mapError f).run s = ((p.run s).1.mapError f, (p.run s).2) := by
  induction p generalizing s with
  | ret r => cases r <;> rfl
  | step eff next ih => exact ih (some s) (eff s)

/-- A loop that passes over some elements. -/
theorem forEach_filter (p : α → Prop) [DecidablePred p] (f : α → Tx ε σ Unit) : ∀ as : List α,
    forEach as (fun a => if p a then f a else pure ()) = forEach (as.filter p) f
  | [] => rfl
  | a :: as => by
    show ((if p a then f a else pure ()) >>= fun _ => forEach as _) = _
    rw [forEach_filter p f as]
    by_cases hp : p a
    · rw [if_pos hp, List.filter_cons_of_pos (by simpa using hp)]
      rfl
    · rw [if_neg hp, List.filter_cons_of_neg (by simpa using hp)]
      rfl

/-- Rewriting errors makes none of them a value. -/
theorem mapError_eq_ok {r : Except ε α} {g : ε → ε'} {a : α} : r.mapError g = .ok a ↔ r = .ok a := by
  cases r <;> simp [Except.mapError]

/-! ### What a program leaves

A program that reads first and writes last is followed up to its write: before
it, the state is the one it began with. -/

section Leaves

variable {p : Tx ε σ α} {g : ε → ε'} {s : σ} {C : σ → Prop}

/-- Nothing has happened while the program only reads. -/
theorem leaves_bind {f : α → Tx ε σ β} (hp : (p.run s).2 = s) (hs : C s)
    (h : ∀ a, (p.run s).1 = .ok a → C ((f a).run s).2) : C ((p >>= f).run s).2 := by
  rw [run_bind]
  rcases hr : p.run s with ⟨⟨e⟩ | ⟨a⟩, s'⟩
  · rw [hr] at hp
    obtain rfl : s' = s := hp
    exact hs
  · rw [hr] at hp h
    obtain rfl : s' = s := hp
    exact h a rfl

theorem leaves_mapError_bind {f : α → Tx ε' σ β} (hp : (p.run s).2 = s) (hs : C s)
    (h : ∀ a, (p.run s).1 = .ok a → C ((f a).run s).2) : C ((p.mapError g >>= f).run s).2 := by
  refine leaves_bind ?_ hs fun a ha => h a ?_
  · rw [run_mapError]
    exact hp
  · rw [run_mapError] at ha
    rcases hr : (p.run s).1 with e | b
    · rw [hr] at ha
      cases ha
    · rw [hr] at ha
      have hab : b = a := Except.ok.inj ha
      rw [hab]

theorem leaves_ofExcept_bind {r : Except ε α} {f : α → Tx ε σ β} (hs : C s)
    (h : ∀ a, r = .ok a → C ((f a).run s).2) : C ((ofExcept r >>= f).run s).2 :=
  leaves_bind rfl hs h

/-- A write with nothing to do after it. -/
theorem leaves_write {f : α → Tx ε' σ β} (hf : ∀ a s', ((f a).run s').2 = s') (h : C (p.run s).2) :
    C ((p.mapError g >>= f).run s).2 := by
  rw [run_bind, run_mapError]
  rcases hr : p.run s with ⟨⟨e⟩ | ⟨a⟩, s'⟩
  · rw [hr] at h
    exact h
  · rw [hr] at h
    show C ((f a).run s').2
    rw [hf]
    exact h

end Leaves

/-! ### How far a program may go -/

/-- Whatever happens, the program leads from a state to a related one. -/
def Within (R : σ → σ → Prop) (p : Tx ε σ α) : Prop := ∀ s, R s (p.run s).2

namespace Within

variable {R : σ → σ → Prop} [IsPreorder σ R]

theorem ofExcept {r : Except ε α} : Within R (Tx.ofExcept r : Tx ε σ α) := fun s => refl_of R s

theorem fail {e : ε} : Within R (Tx.fail e : Tx ε σ α) := fun s => refl_of R s

theorem pure {a : α} : Within R (Pure.pure a : Tx ε σ α) := fun s => refl_of R s

theorem view {io : ε} {g : σ → Except ε α} : Within R (Tx.view io g) := fun s => refl_of R s

theorem update {io : ε} {g : σ → Except ε (α × σ)} (h : ∀ s a s', g s = .ok (a, s') → R s s') :
    Within R (Tx.update io g) := by
  intro s
  rcases hg : g s with e | ⟨a, s'⟩
  · rw [run_update_error hg]
    exact refl_of R s
  · rw [run_update_ok hg]
    exact h s a s' hg

theorem bind {p : Tx ε σ α} {g : α → Tx ε σ β} (hp : Within R p) (hg : ∀ a, Within R (g a)) :
    Within R (p >>= g) := by
  intro s
  have h := hp s
  rw [run_bind]
  rcases hr : p.run s with ⟨⟨e⟩ | ⟨a⟩, s'⟩
  · rw [hr] at h
    exact h
  · rw [hr] at h
    exact trans_of R h (hg a s')

omit [IsPreorder σ R] in
theorem mapError {p : Tx ε σ α} {g : ε → ε'} (hp : Within R p) : Within R (p.mapError g) := by
  intro s
  rw [run_mapError]
  exact hp s

omit [IsPreorder σ R] in
theorem attempt {p : Tx ε σ α} (hp : Within R p) : Within R (p.attempt : Tx ε' σ _) := by
  intro s
  rw [run_attempt]
  exact hp s

omit [IsPreorder σ R] in
theorem ite {c : Prop} [Decidable c] {p q : Tx ε σ α} (hp : Within R p) (hq : Within R q) :
    Within R (if c then p else q) := by
  split_ifs
  · exact hp
  · exact hq

theorem forEach {g : α → Tx ε σ Unit} : ∀ {as : List α}, (∀ a ∈ as, Within R (g a)) → Within R (Tx.forEach as g)
  | [], _ => pure
  | a :: _, h => bind (h a (by simp)) fun _ => forEach fun b hb => h b (by simp [hb])

end Within

/-! ### What every transaction does

`Within` is about a whole run; a program that others interrupt, or that is cut
short, is known by what each of its transactions does. -/

/-- Every transaction of the program leads from a state to a related one. -/
def Throughout (R : σ → σ → Prop) : Tx ε σ α → Prop
  | ret _ => True
  | step eff next => (∀ s, R s (eff s)) ∧ ∀ o, Throughout R (next o)

namespace Throughout

variable {R : σ → σ → Prop} {p : Tx ε σ α}

theorem ofExcept {r : Except ε α} : Throughout R (Tx.ofExcept r : Tx ε σ α) := trivial

theorem fail {e : ε} : Throughout R (Tx.fail e : Tx ε σ α) := trivial

theorem pure {a : α} : Throughout R (Pure.pure a : Tx ε σ α) := trivial

theorem view [Std.Refl R] {io : ε} {f : σ → Except ε α} : Throughout R (Tx.view io f) :=
  ⟨fun s => refl_of R s, fun o => by cases o <;> trivial⟩

theorem update [Std.Refl R] {io : ε} {f : σ → Except ε (α × σ)} (h : ∀ s a s', f s = .ok (a, s') → R s s') :
    Throughout R (Tx.update io f) := by
  refine ⟨fun s => ?_, fun o => by cases o <;> trivial⟩
  cases hf : f s with
  | error e =>
    simp only [hf]
    exact refl_of R s
  | ok r =>
    simp only [hf]
    exact h s r.1 r.2 hf

theorem bind {g : α → Tx ε σ β} (hp : Throughout R p) (hg : ∀ a, Throughout R (g a)) : Throughout R (p >>= g) := by
  show Throughout R (p.bind g)
  induction p with
  | ret r =>
    cases r with
    | error e => trivial
    | ok a => exact hg a
  | step eff next ih => exact ⟨hp.1, fun o => ih o (hp.2 o)⟩

theorem ite {c : Prop} [Decidable c] {q : Tx ε σ α} (hp : Throughout R p) (hq : Throughout R q) :
    Throughout R (if c then p else q) := by
  split_ifs
  · exact hp
  · exact hq

theorem forEach {g : α → Tx ε σ Unit} : ∀ {as : List α}, (∀ a ∈ as, Throughout R (g a)) →
    Throughout R (Tx.forEach as g)
  | [], _ => pure
  | a :: _, h => bind (h a (by simp)) fun _ => forEach fun b hb => h b (by simp [hb])

/-- What all transactions do, the run does. -/
theorem within [IsPreorder σ R] (hp : Throughout R p) : Within R p := by
  intro s
  induction p generalizing s with
  | ret r => exact refl_of R s
  | step eff next ih => exact trans_of R (hp.1 s) (ih (some s) (hp.2 (some s)) (eff s))

end Throughout

/-- The program writes nothing. -/
abbrev Reads (p : Tx ε σ α) : Prop := Within (fun s s' => s' = s) p

instance : IsPreorder σ fun s s' => s' = s where
  refl _ := rfl
  trans _ _ _ h h' := h'.trans h

/-- A program that only reads does not leave the states of `C`. -/
theorem Reads.leaves {p : Tx ε σ α} (hp : Reads p) {C : σ → Prop} {s : σ} (hs : C s) : C (p.run s).2 := by
  rw [hp s]
  exact hs

/-- Two programs one after the other. -/
theorem leaves_then {p : Tx ε σ α} {f : α → Tx ε σ β} {s : σ} {C : σ → Prop} (hp : C (p.run s).2)
    (hf : ∀ a s', C s' → C ((f a).run s').2) : C ((p >>= f).run s).2 := by
  rw [run_bind]
  rcases hr : p.run s with ⟨⟨e⟩ | ⟨a⟩, s'⟩
  · rw [hr] at hp
    exact hp
  · rw [hr] at hp
    exact hf a s' hp

end Tx
