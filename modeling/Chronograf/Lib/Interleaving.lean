/-
# Programs at one store, their transactions interleaved

A configuration is a store and, for each name in `ι`, a program that may
still have transactions to run. A schedule names who runs its next
transaction; the order within one program is the program's own, everything
else is up to the schedule.

A program keeps to `R` among others that keep to `R` when, from any state the
others may have brought about, its next transaction is a step of `R`. What it
saw before is of use to it only as far as steps of `R` leave it true (`Stable`).
Where it is enough to know which states the programs find at all, `Given` says
what they then do and end with.

Key definitions: `Tx.Config`, `Tx.Config.step`, `Tx.Config.run`, `Tx.Stable`,
`Tx.Among`, `Tx.Given`.
Key theorems: `Tx.Config.run_alone`, `Tx.Config.run_keeps`, `Tx.Among.bind`,
`Tx.Among.frame`, `Tx.Config.run_among`, `Tx.Config.run_given`,
`Tx.Config.value_of_found`.
-/
import Chronograf.Lib.Tx
import Mathlib.Logic.Function.Basic

namespace Tx

/-- A store and the programs that use it. -/
structure Config (ι ε σ α : Type) where
  procs : ι → Tx ε σ α
  store : σ

namespace Config

variable {ι ε σ α : Type} [DecidableEq ι]

/-- The next transaction of program `i`, if it has one. -/
def step (c : Config ι ε σ α) (i : ι) : Config ι ε σ α :=
  match c.procs i with
  | .ret _ => c
  | .step eff next => ⟨Function.update c.procs i (next (some c.store)), eff c.store⟩

/-- The transactions the schedule names, one after the other. -/
def run (c : Config ι ε σ α) (sched : List ι) : Config ι ε σ α := sched.foldl step c

@[simp] theorem run_nil (c : Config ι ε σ α) : c.run [] = c := rfl

@[simp] theorem run_cons (c : Config ι ε σ α) (i : ι) (sched : List ι) :
    c.run (i :: sched) = (c.step i).run sched := rfl

theorem step_of_ret {c : Config ι ε σ α} {i : ι} {r : Except ε α} (h : c.procs i = .ret r) :
    c.step i = c := by
  unfold step; rw [h]

theorem step_of_step {c : Config ι ε σ α} {i : ι} {eff : σ → σ} {next : Option σ → Tx ε σ α}
    (h : c.procs i = .step eff next) :
    c.step i = ⟨Function.update c.procs i (next (some c.store)), eff c.store⟩ := by
  unfold step; rw [h]

theorem step_procs_self {c : Config ι ε σ α} {i : ι} {eff : σ → σ} {next : Option σ → Tx ε σ α}
    (h : c.procs i = .step eff next) : (c.step i).procs i = next (some c.store) := by
  rw [step_of_step h]
  exact Function.update_self i _ _

theorem step_store {c : Config ι ε σ α} {i : ι} {eff : σ → σ} {next : Option σ → Tx ε σ α}
    (h : c.procs i = .step eff next) : (c.step i).store = eff c.store := by
  rw [step_of_step h]

/-- A program only moves when it is named. -/
theorem step_procs_ne {i j : ι} {c : Config ι ε σ α} (h : j ≠ i) : (c.step i).procs j = c.procs j := by
  unfold step
  split
  · rfl
  · exact Function.update_of_ne h _ _

/-- A program that has ended stays as it ended. -/
theorem run_ret {i : ι} {r : Except ε α} : ∀ (sched : List ι) {c : Config ι ε σ α}, c.procs i = .ret r →
    (c.run sched).procs i = .ret r
  | [], _, h => h
  | k :: sched, c, h => by
    refine run_ret sched ?_
    by_cases hik : i = k
    · subst hik
      rw [step_of_ret h, h]
    · rw [step_procs_ne hik, h]

/-- Once all programs have ended, nothing happens any more. -/
theorem run_of_all_ret : ∀ (sched : List ι) {c : Config ι ε σ α}, (∀ i, ∃ r, c.procs i = .ret r) →
    c.run sched = c
  | [], _, _ => rfl
  | i :: sched, c, h => by
    obtain ⟨r, hr⟩ := h i
    rw [run_cons, step_of_ret hr]
    exact run_of_all_ret sched h

section Throughout

variable {R : σ → σ → Prop} {c : Config ι ε σ α}

/-- The next transaction, whoever makes it. -/
theorem step_throughout [Std.Refl R] (hc : ∀ i, Throughout R (c.procs i)) (i : ι) :
    R c.store (c.step i).store ∧ ∀ j, Throughout R ((c.step i).procs j) := by
  cases hp : c.procs i with
  | ret r =>
    rw [step_of_ret hp]
    exact ⟨refl_of R _, hc⟩
  | step eff next =>
    have hi := hc i
    rw [hp] at hi
    refine ⟨by rw [step_store hp]; exact hi.1 _, fun j => ?_⟩
    by_cases hj : j = i
    · rw [hj, step_procs_self hp]
      exact hi.2 _
    · rw [step_procs_ne hj]
      exact hc j

/-- What each transaction does, whoever makes it, a step of any run does. -/
theorem run_throughout [Std.Refl R] : ∀ (sched : List ι) {c : Config ι ε σ α},
    (∀ i, Throughout R (c.procs i)) → ∀ i, Throughout R ((c.run sched).procs i)
  | [], _, hc => hc
  | i :: sched, _, hc => run_throughout sched (step_throughout hc i).2

/-- What every transaction keeps, every run keeps. -/
theorem run_keeps {C : σ → Prop} (hR : ∀ s s', R s s' → C s → C s') [Std.Refl R] :
    ∀ (sched : List ι) {c : Config ι ε σ α}, (∀ i, Throughout R (c.procs i)) → C c.store → C (c.run sched).store
  | [], _, _, h => h
  | i :: sched, _, hc, h =>
    run_keeps hR sched (step_throughout hc i).2 (hR _ _ (step_throughout hc i).1 h)

theorem run_append_step (c : Config ι ε σ α) (sched : List ι) (i : ι) :
    c.run (sched ++ [i]) = (c.run sched).step i := List.foldl_append

end Throughout

/-- A program nobody interrupts does what `Tx.run` says. -/
theorem run_alone (i : ι) : ∀ (p : Tx ε σ α) (c : Config ι ε σ α), c.procs i = p →
    ∃ n, c.run (List.replicate n i) =
      ⟨Function.update c.procs i (.ret (p.run c.store).1), (p.run c.store).2⟩
  | .ret r, c, h => ⟨0, by
    have hself : Function.update c.procs i (.ret r) = c.procs := by rw [← h, Function.update_eq_self]
    simp [hself]⟩
  | .step eff next, c, h => by
    have hs := step_of_step h
    obtain ⟨n, hn⟩ := run_alone i (next (some c.store)) (c.step i) (by rw [hs]; simp)
    refine ⟨n + 1, ?_⟩
    rw [List.replicate_succ, run_cons, hn, hs]
    simp

end Config

/-! ### Programs among others -/

section Among

variable {ε ε' σ α β : Type}

/-- What steps of `R` leave true. -/
def Stable (R : σ → σ → Prop) (F : σ → Prop) : Prop := ∀ s s', R s s' → F s → F s'

/-- From the state the program finds and from those that others, keeping to `R`,
make of it, every transaction is a step of `R`; a value at the end satisfies `Q`. -/
def Among (R : σ → σ → Prop) (Q : α → σ → Prop) : Tx ε σ α → σ → Prop
  | ret (.ok a), s => Q a s
  | ret (.error _), _ => True
  | step eff next, s => ∀ s', R s s' → R s' (eff s') ∧ Among R Q (next (some s')) (eff s')

namespace Among

variable {R : σ → σ → Prop} {Q : α → σ → Prop} {Q' : β → σ → Prop} {F : σ → Prop} {s s' : σ}

/-! ### The rules -/

theorem pure {a : α} (h : Q a s) : Among R Q (Pure.pure a : Tx ε σ α) s := h

theorem fail {e : ε} : Among R Q (Tx.fail e : Tx ε σ α) s := trivial

theorem ofExcept {r : Except ε α} (h : ∀ a, r = .ok a → Q a s) : Among R Q (Tx.ofExcept r : Tx ε σ α) s := by
  cases r with
  | error e => trivial
  | ok a => exact h a rfl

theorem view [Std.Refl R] {io : ε} {f : σ → Except ε α} (h : ∀ s' a, R s s' → f s' = .ok a → Q a s') :
    Among R Q (Tx.view io f) s := by
  intro s' hs
  refine ⟨refl_of R s', ?_⟩
  rcases hf : f s' with e | a
  · simp only [id, hf]
    trivial
  · simp only [id, hf]
    exact h s' a hs hf

theorem update [Std.Refl R] {io : ε} {f : σ → Except ε (α × σ)}
    (h : ∀ s' a s'', R s s' → f s' = .ok (a, s'') → R s' s'' ∧ Q a s'') : Among R Q (Tx.update io f) s := by
  intro s' hs
  rcases hf : f s' with e | ⟨a, s''⟩
  · simp only [hf]
    exact ⟨refl_of R s', trivial⟩
  · simp only [hf]
    exact h s' a s'' hs hf

theorem bind {f : α → Tx ε σ β} (hf : ∀ a s, Q a s → Among R Q' (f a) s) :
    ∀ {p : Tx ε σ α} {s : σ}, Among R Q p s → Among R Q' (p >>= f) s
  | ret (.ok a), s, h => hf a s h
  | ret (.error _), _, _ => trivial
  | step _ _, _, h => fun s' hs => ⟨(h s' hs).1, bind hf (h s' hs).2⟩

/-- A check in between is no transaction. -/
theorem ofExcept_bind {r : Except ε α} {f : α → Tx ε σ β} (h : ∀ a, r = .ok a → Among R Q' (f a) s) :
    Among R Q' (Tx.ofExcept r >>= f) s := by
  cases r with
  | error e => trivial
  | ok a => exact h a rfl

theorem forEach {f : α → Tx ε σ Unit} (hf : ∀ a s, Among R (fun _ _ => True) (f a) s) :
    ∀ (as : List α) (s : σ), Among R (fun _ _ => True) (Tx.forEach as f) s
  | [], _ => trivial
  | a :: as, s => bind (fun _ s _ => forEach hf as s) (hf a s)

theorem mapError {g : ε → ε'} : ∀ {p : Tx ε σ α} {s : σ}, Among R Q p s → Among R Q (p.mapError g) s
  | ret (.ok _), _, h => h
  | ret (.error _), _, _ => trivial
  | step _ _, _, h => fun s' hs => ⟨(h s' hs).1, mapError (h s' hs).2⟩

theorem ite {c : Prop} [Decidable c] {p q : Tx ε σ α} (hp : c → Among R Q p s) (hq : ¬ c → Among R Q q s) :
    Among R Q (if c then p else q) s := by
  by_cases h : c
  · rw [if_pos h]
    exact hp h
  · rw [if_neg h]
    exact hq h

theorem mono {Q' : α → σ → Prop} (hQ : ∀ a s, Q a s → Q' a s) :
    ∀ {p : Tx ε σ α} {s : σ}, Among R Q p s → Among R Q' p s
  | ret (.ok a), s, h => hQ a s h
  | ret (.error _), _, _ => trivial
  | step _ _, _, h => fun s' hs => ⟨(h s' hs).1, mono hQ (h s' hs).2⟩

/-- A stable fact is still there at the end. -/
theorem frame (hF : Stable R F) : ∀ {p : Tx ε σ α} {s : σ}, F s → Among R Q p s → Among R (fun a s => Q a s ∧ F s) p s
  | ret (.ok _), _, hs, h => ⟨h, hs⟩
  | ret (.error _), _, _, _ => trivial
  | step _ _, s, hs, h => fun s' hss =>
    have hs' : F s' := hF s s' hss hs
    ⟨(h s' hss).1, frame hF (hF _ _ (h s' hss).1 hs') (h s' hss).2⟩

/-- The program may also begin later. -/
theorem later [IsTrans σ R] (hQ : ∀ a, Stable R (Q a)) (hs : R s s') : ∀ {p : Tx ε σ α}, Among R Q p s → Among R Q p s'
  | ret (.ok a), h => hQ a s s' hs h
  | ret (.error _), _ => trivial
  | step _ _, h => fun s'' hs' => h s'' (trans_of R hs hs')

/-- A program each of whose transactions is a step of `R`, whatever it finds. -/
theorem of_throughout : ∀ {p : Tx ε σ α} {s : σ}, Throughout R p → Among R (fun _ _ => True) p s
  | ret (.ok _), _, _ => trivial
  | ret (.error _), _, _ => trivial
  | step _ _, _, h => fun s' _ => ⟨h.1 s', of_throughout (h.2 (some s'))⟩

end Among

/-! ### Programs that share a store -/

namespace Config

variable {ι : Type} [DecidableEq ι] {R : σ → σ → Prop} [IsPreorder σ R] {c : Config ι ε σ α}

theorem step_among (hc : ∀ i, Among R (fun _ _ => True) (c.procs i) c.store) (i : ι) :
    R c.store (c.step i).store ∧ ∀ j, Among R (fun _ _ => True) ((c.step i).procs j) (c.step i).store := by
  rcases hp : c.procs i with r | ⟨eff, next⟩
  · rw [step_of_ret hp]
    exact ⟨refl_of R _, hc⟩
  · have hi := hc i
    rw [hp] at hi
    obtain ⟨hstep, hnext⟩ := hi _ (refl_of R _)
    rw [step_store hp]
    refine ⟨hstep, fun j => ?_⟩
    by_cases hj : j = i
    · rw [hj, step_procs_self hp]
      exact hnext
    · rw [step_procs_ne hj]
      exact (hc j).later (fun _ _ _ _ _ => trivial) hstep

/-- However their transactions are interleaved, the programs together keep to `R`. -/
theorem run_among : ∀ (sched : List ι) {c : Config ι ε σ α}, (∀ i, Among R (fun _ _ => True) (c.procs i) c.store) →
    R c.store (c.run sched).store
  | [], _, _ => refl_of R _
  | i :: sched, _, hc => trans_of R (step_among hc i).1 (run_among sched (step_among hc i).2)

end Config

end Among

/-! ### What programs find -/

section Given

variable {ε ε' σ α β : Type}

/-- Given that it only finds states of `V`, every transaction of the program is a
step of `G`, and a value at the end satisfies `Q`. -/
def Given (V : σ → Prop) (G : σ → σ → Prop) (Q : α → Prop) : Tx ε σ α → Prop
  | ret (.ok a) => Q a
  | ret (.error _) => True
  | step eff next => ∀ s, V s → G s (eff s) ∧ Given V G Q (next (some s))

namespace Given

variable {V : σ → Prop} {G : σ → σ → Prop} {Q : α → Prop} {Q' : β → Prop}

theorem pure {a : α} (h : Q a) : Given V G Q (Pure.pure a : Tx ε σ α) := h

theorem fail {e : ε} : Given V G Q (Tx.fail e : Tx ε σ α) := trivial

theorem view (hG : ∀ s, V s → G s s) {io : ε} {f : σ → Except ε α} (h : ∀ s a, V s → f s = .ok a → Q a) :
    Given V G Q (Tx.view io f) := by
  intro s hs
  refine ⟨hG s hs, ?_⟩
  rcases hf : f s with e | a
  · simp only [hf]
    trivial
  · simp only [hf]
    exact h s a hs hf

theorem update (hG : ∀ s, V s → G s s) {io : ε} {f : σ → Except ε (α × σ)}
    (h : ∀ s a s', V s → f s = .ok (a, s') → G s s' ∧ Q a) : Given V G Q (Tx.update io f) := by
  intro s hs
  rcases hf : f s with e | ⟨a, s'⟩
  · simp only [hf]
    exact ⟨hG s hs, trivial⟩
  · simp only [hf]
    exact h s a s' hs hf

theorem bind {f : α → Tx ε σ β} (hf : ∀ a, Q a → Given V G Q' (f a)) :
    ∀ {p : Tx ε σ α}, Given V G Q p → Given V G Q' (p >>= f)
  | ret (.ok a), h => hf a h
  | ret (.error _), _ => trivial
  | step _ _, h => fun s hs => ⟨(h s hs).1, bind hf (h s hs).2⟩

theorem ofExcept_bind {r : Except ε α} {f : α → Tx ε σ β} (h : ∀ a, r = .ok a → Given V G Q' (f a)) :
    Given V G Q' (Tx.ofExcept r >>= f) := by
  cases r with
  | error e => trivial
  | ok a => exact h a rfl

theorem mapError {g : ε → ε'} : ∀ {p : Tx ε σ α}, Given V G Q p → Given V G Q (p.mapError g)
  | ret (.ok _), h => h
  | ret (.error _), _ => trivial
  | step _ _, h => fun s hs => ⟨(h s hs).1, mapError (h s hs).2⟩

theorem ite {c : Prop} [Decidable c] {p q : Tx ε σ α} (hp : c → Given V G Q p) (hq : ¬ c → Given V G Q q) :
    Given V G Q (if c then p else q) := by
  by_cases h : c
  · rw [if_pos h]
    exact hp h
  · rw [if_neg h]
    exact hq h

theorem forEach {f : α → Tx ε σ Unit} (hf : ∀ a, Given V G (fun _ => True) (f a)) :
    ∀ as : List α, Given V G (fun _ => True) (Tx.forEach as f)
  | [] => trivial
  | a :: as => bind (fun _ _ => forEach hf as) (hf a)

theorem mono {Q' : α → Prop} (hQ : ∀ a, Q a → Q' a) : ∀ {p : Tx ε σ α}, Given V G Q p → Given V G Q' p
  | ret (.ok a), h => hQ a h
  | ret (.error _), _ => trivial
  | step _ _, h => fun s hs => ⟨(h s hs).1, mono hQ (h s hs).2⟩

/-- Fewer states to find, and less to say of the transactions. -/
theorem weaken {V' : σ → Prop} {G' : σ → σ → Prop} (hV : ∀ s, V' s → V s) (hG : ∀ s s', G s s' → G' s s') :
    ∀ {p : Tx ε σ α}, Given V G Q p → Given V' G' Q p
  | ret (.ok _), h => h
  | ret (.error _), _ => trivial
  | step _ _, h => fun s hs => ⟨hG _ _ (h s (hV s hs)).1, weaken hV hG (h s (hV s hs)).2⟩

end Given

namespace Config

variable {ι : Type} [DecidableEq ι] {V : σ → Prop} {G : σ → σ → Prop} {c : Config ι ε σ α} {Q : ι → α → Prop}

theorem step_given (hG : ∀ s s', V s → G s s' → V s') (hc : ∀ i, Given V G (Q i) (c.procs i)) (hs : V c.store) (i : ι) :
    V (c.step i).store ∧ ∀ j, Given V G (Q j) ((c.step i).procs j) := by
  rcases hp : c.procs i with r | ⟨eff, next⟩
  · rw [step_of_ret hp]
    exact ⟨hs, hc⟩
  · have hi := hc i
    rw [hp] at hi
    obtain ⟨hstep, hnext⟩ := hi _ hs
    rw [step_store hp]
    refine ⟨hG _ _ hs hstep, fun j => ?_⟩
    by_cases hj : j = i
    · rw [hj, step_procs_self hp]
      exact hnext
    · rw [step_procs_ne hj]
      exact hc j

/-- Programs that keep to the states of `V` when they find no others: in every run
they find no others. -/
theorem run_given (hG : ∀ s s', V s → G s s' → V s') : ∀ (sched : List ι) {c : Config ι ε σ α},
    (∀ i, Given V G (Q i) (c.procs i)) → V c.store →
    V (c.run sched).store ∧ ∀ i, Given V G (Q i) ((c.run sched).procs i)
  | [], _, hc, hs => ⟨hs, hc⟩
  | i :: sched, _, hc, hs => run_given hG sched (step_given hG hc hs i).2 (step_given hG hc hs i).1

/-- What a program is known to end with when it finds the states of a run, it ends with in that run. -/
theorem value_of_found {i : ι} {P : α → Prop} : ∀ (sched : List ι) {c : Config ι ε σ α} {a : α},
    (∀ n, V (c.run (sched.take n)).store) → Given V G P (c.procs i) → (c.run sched).procs i = .ret (.ok a) → P a
  | [], c, a, _, hi, h => by
    rw [run_nil] at h
    rw [h] at hi
    exact hi
  | k :: sched, c, a, hV, hi, h => by
    refine value_of_found sched (c := c.step k) (fun n => hV (n + 1)) ?_ h
    by_cases hk : i = k
    · subst hk
      rcases hp : c.procs i with r | ⟨eff, next⟩
      · rw [step_of_ret hp, hp]
        rwa [hp] at hi
      · rw [step_procs_self hp]
        rw [hp] at hi
        exact (hi _ (hV 0)).2
    · rwa [step_procs_ne hk]

end Config

end Given

end Tx
