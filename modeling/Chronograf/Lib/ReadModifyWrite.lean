/-
# Two read-modify-write programs at one store

A read-modify-write program reads the store in its first transaction, may look
at it again in later ones and give up, and writes in its last transaction what
it computes from the first. Where two of them are interleaved and neither gives
up, either one of them has written before the other reads, and the store is as
after one and then the other; or both compute from the same state, and the
second to write knows nothing of what the first one wrote.

A program that finds in its last transaction that it cannot write, and writes
nothing, is one of them too (`Tx.CommitsOrFails`, `Tx.RmwOrFails`).

Key definitions: `Tx.Commits`, `Tx.Rmw`, `Tx.RmwOrFails`, `Tx.firstDone`.
Key theorem: `Tx.Config.run_two_rmw`.
-/
import Chronograf.Lib.Interleaving
import Mathlib.Data.Bool.Basic
import Mathlib.Data.Nat.Notation

namespace Tx

variable {ε σ α β : Type}

/-- The program looks at the store in `m` transactions, each of which may make
it give up, and then writes `w`. -/
def Commits (w : σ → σ) : ℕ → Tx ε σ α → Prop
  | 0, p => ∃ next, p = step w next ∧ ∀ s, ∃ a, next (some s) = ret (.ok a)
  | m + 1, p => ∃ next, p = step id next ∧
    ∀ s, (∃ e, next (some s) = ret (.error e)) ∨ Commits w m (next (some s))

/-- The program reads a state `s`, and gives up or, if `s` is one of `R`, goes on
to commit `w s`. -/
def Rmw (R : σ → Prop) (w : σ → σ → σ) (m : ℕ) (p : Tx ε σ α) : Prop :=
  ∃ next, p = step id next ∧
    ∀ s, (∃ e, next (some s) = ret (.error e)) ∨ R s ∧ Commits (w s) m (next (some s))

/-- The same, but the program may also give up in its last transaction. -/
def CommitsOrFails (w : σ → σ) : ℕ → Tx ε σ α → Prop
  | 0, p => ∃ eff next, p = step eff next ∧
    ∀ s, (∃ e, next (some s) = ret (.error e)) ∨ eff s = w s ∧ ∃ a, next (some s) = ret (.ok a)
  | m + 1, p => ∃ next, p = step id next ∧
    ∀ s, (∃ e, next (some s) = ret (.error e)) ∨ CommitsOrFails w m (next (some s))

def RmwOrFails (R : σ → Prop) (w : σ → σ → σ) (m : ℕ) (p : Tx ε σ α) : Prop :=
  ∃ next, p = step id next ∧
    ∀ s, (∃ e, next (some s) = ret (.error e)) ∨ R s ∧ CommitsOrFails (w s) m (next (some s))

theorem Commits.orFails {w : σ → σ} : ∀ {m : ℕ} {p : Tx ε σ α}, Commits w m p → CommitsOrFails w m p
  | 0, _, ⟨next, hp, hnext⟩ => ⟨w, next, hp, fun s => .inr ⟨rfl, hnext s⟩⟩
  | _ + 1, _, ⟨next, hp, hnext⟩ => ⟨next, hp, fun s => (hnext s).imp_right Commits.orFails⟩

theorem Rmw.orFails {R : σ → Prop} {w : σ → σ → σ} {m : ℕ} {p : Tx ε σ α} (h : Rmw R w m p) : RmwOrFails R w m p := by
  obtain ⟨next, hp, hnext⟩ := h
  exact ⟨next, hp, fun s => (hnext s).imp_right fun ⟨hR, hcom⟩ => ⟨hR, hcom.orFails⟩⟩

theorem CommitsOrFails.ne_ret {w : σ → σ} {r : Except ε α} : ∀ {m : ℕ}, ¬ CommitsOrFails w m (ret r : Tx ε σ α)
  | 0, ⟨_, _, h, _⟩ => nomatch h
  | _ + 1, ⟨_, h, _⟩ => nomatch h

/-- What is done with the result afterwards does not matter. -/
theorem Commits.map {w : σ → σ} (f : α → β) : ∀ {m : ℕ} {p : Tx ε σ α}, Commits w m p →
    Commits w m (do let a ← p; pure (f a))
  | 0, _, ⟨next, hp, hnext⟩ => by
    refine ⟨_, by rw [hp]; rfl, fun s => ?_⟩
    obtain ⟨a, ha⟩ := hnext s
    refine ⟨f a, ?_⟩
    show (next (some s)).bind _ = _
    rw [ha]
    rfl
  | m + 1, _, ⟨next, hp, hnext⟩ => by
    refine ⟨_, by rw [hp]; rfl, fun s => ?_⟩
    rcases hnext s with ⟨e, he⟩ | hcom
    · refine .inl ⟨e, ?_⟩
      show (next (some s)).bind _ = _
      rw [he]
      rfl
    · exact .inr (hcom.map f)

theorem RmwOrFails.ne_ret {R : σ → Prop} {w : σ → σ → σ} {m : ℕ} {r : Except ε α} :
    ¬ RmwOrFails R w m (ret r : Tx ε σ α) :=
  fun ⟨_, h, _⟩ => nomatch h

/-! ### Programs that are one of these -/

section Programs

variable {ε' : Type} {g : ε → ε'} {io : ε} {w : σ → σ} {m : ℕ}

/-- A last transaction that may be rolled back. -/
theorem CommitsOrFails.update {f : σ → Except ε (β × σ)} {a : α} (h : ∀ s b s', f s = .ok (b, s') → s' = w s) :
    CommitsOrFails w 0 ((Tx.update io f).mapError g >>= fun _ => pure a) := by
  refine ⟨_, _, rfl, fun s => ?_⟩
  cases hf : f s with
  | error e =>
    refine .inl ⟨g e, ?_⟩
    show ((ret ((f s).map Prod.fst)).mapError g).bind _ = _
    rw [hf]
    rfl
  | ok r =>
    refine .inr ⟨?_, a, ?_⟩
    · exact h s r.1 r.2 hf
    · show ((ret ((f s).map Prod.fst)).mapError g).bind _ = _
      rw [hf]
      rfl

/-- A program that looks once more. -/
theorem CommitsOrFails.view {f : σ → Except ε β} {K : β → Tx ε' σ α}
    (h : ∀ s b, f s = .ok b → CommitsOrFails w m (K b)) :
    CommitsOrFails w (m + 1) ((Tx.view io f).mapError g >>= K) := by
  refine ⟨_, rfl, fun s => ?_⟩
  cases hf : f s with
  | error e =>
    refine .inl ⟨g e, ?_⟩
    show ((ret (f s)).mapError g).bind _ = _
    rw [hf]
    rfl
  | ok b =>
    refine .inr ?_
    show CommitsOrFails w m (((ret (f s)).mapError g).bind _)
    rw [hf]
    exact h s b hf

/-- A program that begins by looking. -/
theorem RmwOrFails.view {f : σ → Except ε β} {K : β → Tx ε' σ α} {R : σ → Prop} {w : σ → σ → σ}
    (h : ∀ s b, f s = .ok b → (∃ e, K b = ret (.error e)) ∨ R s ∧ CommitsOrFails (w s) m (K b)) :
    RmwOrFails R w m ((Tx.view io f).mapError g >>= K) := by
  refine ⟨_, rfl, fun s => ?_⟩
  cases hf : f s with
  | error e =>
    refine .inl ⟨g e, ?_⟩
    show ((ret (f s)).mapError g).bind _ = _
    rw [hf]
    rfl
  | ok b =>
    show (∃ e, ((ret (f s)).mapError g).bind K = _) ∨ R s ∧ CommitsOrFails (w s) m (((ret (f s)).mapError g).bind K)
    rw [hf]
    exact h s b hf

end Programs

/-- Which of two programs makes its last transaction first, when program `i` has
`m i` transactions before its last one. -/
def firstDone : (Bool → ℕ) → List Bool → Bool
  | _, [] => false
  | m, i :: sched => if m i = 0 then i else firstDone (Function.update m i (m i - 1)) sched

/-- One transaction fewer of `i` is left. -/
theorem firstDone_cons {m m' : Bool → ℕ} {i : Bool} (hi : m i = m' i + 1) (hne : m (!i) = m' !i) (sched : List Bool) :
    firstDone m (i :: sched) = firstDone m' sched := by
  have hupd : Function.update m i (m i - 1) = m' := by
    funext j
    by_cases hj : j = i
    · rw [hj, Function.update_self]
      omega
    · rw [Function.update_of_ne hj, Bool.eq_not.mpr hj, hne]
  have hpos : m i ≠ 0 := by omega
  rw [firstDone, if_neg hpos, hupd]

theorem replicate_prefix_cons {i : Bool} {n : ℕ} {sched : List Bool} :
    List.replicate (n + 1) i <+: i :: sched ↔ List.replicate n i <+: sched := by
  rw [List.replicate_succ, List.cons_prefix_cons]
  simp

theorem not_replicate_prefix_cons {i k : Bool} {n : ℕ} {sched : List Bool} (h : k ≠ i) :
    ¬ List.replicate (n + 1) k <+: i :: sched := by
  rw [List.replicate_succ, List.cons_prefix_cons]
  exact fun hk => h hk.1

namespace Config

variable {ε σ α : Type} {c : Config Bool ε σ α} {w : Bool → σ → σ}

/-- The program `i` has ended with a value. -/
def Succeeds (c : Config Bool ε σ α) (i : Bool) : Prop := ∃ a, c.procs i = .ret (.ok a)

theorem not_succeeds_of_error {i : Bool} {e : ε} {sched : List Bool} (h : c.procs i = .ret (.error e)) :
    ¬ (c.run sched).Succeeds i := by
  rintro ⟨a, ha⟩
  rw [run_ret sched h] at ha
  cases ha

/-- With the other program at its end, one that is to commit `w` does. -/
theorem run_one_commits {i : Bool} {w : σ → σ} : ∀ (sched : List Bool) {m : ℕ} {c : Config Bool ε σ α},
    (∃ r, c.procs (!i) = .ret r) → CommitsOrFails w m (c.procs i) → (c.run sched).Succeeds i →
    (c.run sched).store = w c.store
  | [], m, c, _, hi, ⟨a, ha⟩ => by
    have ha' : c.procs i = .ret (.ok a) := ha
    rw [ha'] at hi
    exact absurd hi CommitsOrFails.ne_ret
  | k :: sched, m, c, ⟨r, hr⟩, hi, hok => by
    rw [run_cons] at hok ⊢
    by_cases hk : k = i
    · subst hk
      have hother : (c.step k).procs (!k) = .ret r := by rw [step_procs_ne (by simp), hr]
      cases m with
      | zero =>
        obtain ⟨eff, next, hp, hnext⟩ := hi
        rcases hnext c.store with ⟨e, he⟩ | ⟨hw, a, ha⟩
        · exact absurd hok (not_succeeds_of_error ((step_procs_self hp).trans he))
        have hpk : (c.step k).procs k = .ret (.ok a) := (step_procs_self hp).trans ha
        rw [run_of_all_ret sched, step_store hp, hw]
        intro j
        by_cases hj : j = k
        · exact ⟨.ok a, hj ▸ hpk⟩
        · exact ⟨r, by rw [Bool.eq_not.mpr hj, hother]⟩
      | succ m =>
        obtain ⟨next, hp, hnext⟩ := hi
        have hpk := step_procs_self hp
        rcases hnext c.store with ⟨e, he⟩ | hcom
        · exact absurd hok (not_succeeds_of_error (hpk.trans he))
        · rw [← hpk] at hcom
          rw [run_one_commits sched ⟨r, hother⟩ hcom hok, step_store hp]
          rfl
    · have hk' : k = !i := Bool.eq_not.mpr hk
      rw [hk'] at hok ⊢
      rw [step_of_ret hr] at hok ⊢
      exact run_one_commits sched ⟨r, hr⟩ hi hok

/-- The same for one that has not read yet: it commits what it computes from the
state it finds. -/
theorem run_one_rmw {i : Bool} {R : σ → Prop} {w : σ → σ → σ} {m : ℕ} : ∀ (sched : List Bool) {c : Config Bool ε σ α},
    (∃ r, c.procs (!i) = .ret r) → RmwOrFails R w m (c.procs i) → (c.run sched).Succeeds i →
    R c.store ∧ (c.run sched).store = w c.store c.store
  | [], c, _, hi, ⟨a, ha⟩ => by
    have ha' : c.procs i = .ret (.ok a) := ha
    rw [ha'] at hi
    exact absurd hi RmwOrFails.ne_ret
  | k :: sched, c, ⟨r, hr⟩, hi, hok => by
    rw [run_cons] at hok ⊢
    by_cases hk : k = i
    · subst hk
      have hother : (c.step k).procs (!k) = .ret r := by rw [step_procs_ne (by simp), hr]
      obtain ⟨next, hp, hnext⟩ := hi
      have hpk := step_procs_self hp
      rcases hnext c.store with ⟨e, he⟩ | ⟨hR, hcom⟩
      · exact absurd hok (not_succeeds_of_error (hpk.trans he))
      · rw [← hpk] at hcom
        rw [run_one_commits sched ⟨r, hother⟩ hcom hok, step_store hp]
        exact ⟨hR, rfl⟩
    · have hk' : k = !i := Bool.eq_not.mpr hk
      rw [hk'] at hok ⊢
      rw [step_of_ret hr] at hok ⊢
      exact run_one_rmw sched ⟨r, hr⟩ hi hok

/-- Two programs that are to commit do, in the order of their last transactions. -/
theorem run_two_commits : ∀ (sched : List Bool) {m : Bool → ℕ} {c : Config Bool ε σ α},
    (∀ i, CommitsOrFails (w i) (m i) (c.procs i)) → (∀ i, (c.run sched).Succeeds i) →
    (c.run sched).store = w (!firstDone m sched) (w (firstDone m sched) c.store)
  | [], m, c, hc, hok => by
    obtain ⟨a, ha⟩ := hok false
    have ha' : c.procs false = .ret (.ok a) := ha
    have hf := hc false
    rw [ha'] at hf
    exact absurd hf CommitsOrFails.ne_ret
  | k :: sched, m, c, hc, hok => by
    rw [run_cons] at hok ⊢
    have hother : CommitsOrFails (w !k) (m !k) ((c.step k).procs !k) := by
      rw [step_procs_ne (by simp)]
      exact hc !k
    cases hm : m k with
    | zero =>
      -- `k` writes, and the other one is left
      have hck := hc k
      rw [hm] at hck
      obtain ⟨eff, next, hp, hnext⟩ := hck
      rcases hnext c.store with ⟨e, he⟩ | ⟨hw, a, ha⟩
      · exact absurd (hok k) (not_succeeds_of_error ((step_procs_self hp).trans he))
      have hpk : (c.step k).procs k = .ret (.ok a) := (step_procs_self hp).trans ha
      have hdone : firstDone m (k :: sched) = k := by simp [firstDone, hm]
      have hstore : (c.step k).store = w k c.store := (step_store hp).trans hw
      rw [run_one_commits (i := !k) sched ⟨.ok a, by rw [Bool.not_not]; exact hpk⟩ hother (hok !k), hdone, hstore]
    | succ n =>
      -- `k` looks once more
      have hck := hc k
      rw [hm] at hck
      obtain ⟨next, hp, hnext⟩ := hck
      have hpk := step_procs_self hp
      have hstore : (c.step k).store = c.store := step_store hp
      have hdone : firstDone m (k :: sched) = firstDone (Function.update m k n) sched := by
        simp [firstDone, hm]
      rcases hnext c.store with ⟨e, he⟩ | hcom
      · exact absurd (hok k) (not_succeeds_of_error (hpk.trans he))
      · have hall : ∀ i, CommitsOrFails (w i) (Function.update m k n i) ((c.step k).procs i) := by
          intro i
          by_cases hik : i = k
          · rw [hik, Function.update_self, hpk]
            exact hcom
          · rw [Function.update_of_ne hik, Bool.eq_not.mpr hik]
            exact hother
        rw [run_two_commits sched hall hok, hdone, hstore]

variable {R : Bool → σ → Prop} {w : Bool → σ → σ → σ}

/-- One program has read, the other one has not. -/
theorem run_commits_rmw {k : Bool} {s : σ} {n : ℕ} : ∀ (sched : List Bool) {m : ℕ} {c : Config Bool ε σ α},
    c.store = s → CommitsOrFails (w k s) m (c.procs k) →
    RmwOrFails (R !k) (w !k) n (c.procs !k) → (∀ i, (c.run sched).Succeeds i) →
    (List.replicate (m + 1) k <+: sched ∧ R (!k) (w k s s) ∧
      (c.run sched).store = w (!k) (w k s s) (w k s s)) ∨
    (¬ List.replicate (m + 1) k <+: sched ∧ R (!k) s ∧
      let f := firstDone (fun i => if i = k then m else n + 1) sched
      (c.run sched).store = w (!f) s (w f s s))
  | [], m, c, _, hk, _, hok => by
    obtain ⟨a, ha⟩ := hok k
    have ha' : c.procs k = .ret (.ok a) := ha
    rw [ha'] at hk
    exact absurd hk CommitsOrFails.ne_ret
  | i :: sched, m, c, hs, hk, hother, hok => by
    rw [run_cons] at hok ⊢
    by_cases hik : i = k
    · subst hik
      have hother' : RmwOrFails (R !i) (w !i) n ((c.step i).procs !i) := by
        rw [step_procs_ne (by simp)]
        exact hother
      cases m with
      | zero =>
        -- it writes before the other one reads
        obtain ⟨eff, next, hp, hnext⟩ := hk
        rcases hnext c.store with ⟨e, he⟩ | ⟨hw, a, ha⟩
        · exact absurd (hok i) (not_succeeds_of_error ((step_procs_self hp).trans he))
        have hpi : (c.step i).procs i = .ret (.ok a) := (step_procs_self hp).trans ha
        have hstore : (c.step i).store = w i s s := by rw [step_store hp, hw, hs]
        have hlast := run_one_rmw (i := !i) sched ⟨.ok a, by rw [Bool.not_not]; exact hpi⟩ hother' (hok !i)
        rw [hstore] at hlast
        exact .inl ⟨by simp, hlast⟩
      | succ m =>
        obtain ⟨next, hp, hnext⟩ := hk
        have hpi := step_procs_self hp
        have hstore : (c.step i).store = s := (step_store hp).trans hs
        rcases hnext c.store with ⟨e, he⟩ | hcom
        · exact absurd (hok i) (not_succeeds_of_error (hpi.trans he))
        · rw [← hpi] at hcom
          have hdone : firstDone (fun j => if j = i then m + 1 else n + 1) (i :: sched) =
              firstDone (fun j => if j = i then m else n + 1) sched := firstDone_cons (by simp) (by simp) sched
          rw [replicate_prefix_cons, hdone]
          exact run_commits_rmw sched hstore hcom hother' hok
    · -- the other one reads the same state
      have hi : i = !k := Bool.eq_not.mpr hik
      subst hi
      have hk' : CommitsOrFails (w k s) m ((c.step (!k)).procs k) := by
        rw [step_procs_ne (by simp)]
        exact hk
      obtain ⟨next, hp, hnext⟩ := hother
      have hpi := step_procs_self hp
      have hstore : (c.step (!k)).store = s := (step_store hp).trans hs
      have hdone : firstDone (fun j => if j = k then m else n + 1) ((!k) :: sched) =
          firstDone (fun j => if j = k then m else n) sched := firstDone_cons (by simp) (by simp) sched
      rcases hnext c.store with ⟨e, he⟩ | ⟨hR, hcom⟩
      · exact absurd (hok !k) (not_succeeds_of_error (hpi.trans he))
      · rw [hs] at hR
        rw [← hpi, hs] at hcom
        refine .inr ⟨not_replicate_prefix_cons (by simp), hR, ?_⟩
        rw [hdone]
        have hall : ∀ j, CommitsOrFails (w j s) (if j = k then m else n) ((c.step (!k)).procs j) := by
          intro j
          by_cases hj : j = k
          · rw [hj, if_pos rfl]
            exact hk'
          · rw [if_neg hj, Bool.eq_not.mpr hj]
            exact hcom
        rw [run_two_commits (w := fun j => w j s) sched hall hok, hstore]

/-- What two read-modify-write programs that both succeed leave of the state `s`:
if the schedule begins with all transactions of one of them, the other one
computes from what that one left; otherwise both compute from `s`, and the last
to write writes over the first. -/
theorem run_two_rmw {m : Bool → ℕ} {c : Config Bool ε σ α} (hc : ∀ i, RmwOrFails (R i) (w i) (m i) (c.procs i))
    (sched : List Bool) (hok : ∀ i, (c.run sched).Succeeds i) :
    (∃ k, List.replicate (m k + 2) k <+: sched ∧ R k c.store ∧ R (!k) (w k c.store c.store) ∧
      (c.run sched).store = w (!k) (w k c.store c.store) (w k c.store c.store)) ∨
    ((∀ k, ¬ List.replicate (m k + 2) k <+: sched) ∧ (∀ k, R k c.store) ∧
      let f := firstDone (fun k => m k + 1) sched
      (c.run sched).store = w (!f) c.store (w f c.store c.store)) := by
  cases sched with
  | nil =>
    obtain ⟨a, ha⟩ := hok false
    have ha' : c.procs false = .ret (.ok a) := ha
    have hf := hc false
    rw [ha'] at hf
    exact absurd hf RmwOrFails.ne_ret
  | cons i sched =>
    rw [run_cons] at hok ⊢
    obtain ⟨next, hp, hnext⟩ := hc i
    have hpi := step_procs_self hp
    have hstore : (c.step i).store = c.store := step_store hp
    rcases hnext c.store with ⟨e, he⟩ | ⟨hR, hcom⟩
    · exact absurd (hok i) (not_succeeds_of_error (hpi.trans he))
    · rw [← hpi] at hcom
      have hother : RmwOrFails (R !i) (w !i) (m !i) ((c.step i).procs !i) := by
        rw [step_procs_ne (by simp)]
        exact hc !i
      have hdone : firstDone (fun k => m k + 1) (i :: sched) =
          firstDone (fun j => if j = i then m i else m (!i) + 1) sched := firstDone_cons (by simp) (by simp) sched
      rcases run_commits_rmw sched hstore hcom hother hok with ⟨h, hR', hfinal⟩ | ⟨h, hR', hfinal⟩
      · exact .inl ⟨i, replicate_prefix_cons.mpr h, hR, hR', hfinal⟩
      · refine .inr ⟨fun k hk => ?_, fun k => ?_, ?_⟩
        · by_cases hki : k = i
          · subst hki
            exact h (replicate_prefix_cons.mp hk)
          · exact not_replicate_prefix_cons hki hk
        · by_cases hki : k = i
          · exact hki ▸ hR
          · exact Bool.eq_not.mpr hki ▸ hR'
        · rw [hdone]
          exact hfinal

end Config
end Tx
