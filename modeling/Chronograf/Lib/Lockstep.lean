/-
# Two programs, transaction for transaction

Two programs run in lockstep when from related states each transaction of the
one and its counterpart lead to related states, and both end alike. Programs in
lockstep cannot be told apart by what they answer, also when any number of them
share a store and their transactions are interleaved.

Key definitions: `Tx.ResultRel`, `Tx.Lockstep`.
Key theorems: `Tx.Lockstep.bind`, `Tx.Lockstep.mapError`, `Tx.Config.run_lockstep`.
-/
import Chronograf.Lib.Interleaving

namespace Tx

variable {ε ε' δ δ' σ σ' α α' β β' : Type}

/-- Two results: both errors, related by `E`, or both values, related by `P`. -/
def ResultRel (E : ε → ε' → Prop) (P : α → α' → Prop) : Except ε α → Except ε' α' → Prop
  | .ok a, .ok a' => P a a'
  | .error e, .error e' => E e e'
  | _, _ => False

/-- From states related by `R` the two programs do transactions that lead to related
states, and they end in related results. -/
def Lockstep (R : σ → σ' → Prop) (E : ε → ε' → Prop) (P : α → α' → Prop) : Tx ε σ α → Tx ε' σ' α' → Prop
  | ret r, ret r' => ResultRel E P r r'
  | step eff next, step eff' next' => ∀ s s', R s s' →
    R (eff s) (eff' s') ∧ Lockstep R E P (next (some s)) (next' (some s'))
  | _, _ => False

variable {R : σ → σ' → Prop} {E : ε → ε' → Prop} {D : δ → δ' → Prop} {P : α → α' → Prop} {Q : β → β' → Prop}

theorem ResultRel.refl {r : Except ε α} : ResultRel Eq Eq r r := by
  cases r <;> rfl

theorem ResultRel.map {f : α → β} {r : Except ε α} : ResultRel Eq (fun a b => b = f a) r (r.map f) := by
  cases r <;> rfl

theorem ResultRel.mapError {r : Except ε α} {r' : Except ε' α'} {f : ε → δ} {g : ε' → δ'} (h : ResultRel E P r r')
    (hfg : ∀ e e', E e e' → D (f e) (g e')) : ResultRel D P (r.mapError f) (r'.mapError g) := by
  match r, r', h with
  | .ok _, .ok _, h => exact h
  | .error e, .error e', h => exact hfg e e' h

theorem ResultRel.eq {r r' : Except ε α} (h : ResultRel Eq Eq r r') : r = r' := by
  match r, r', h with
  | .ok _, .ok _, h => exact congrArg _ h
  | .error _, .error _, h => exact congrArg _ h

namespace Lockstep

/-! ### The rules -/

theorem ofExcept {r : Except ε α} {r' : Except ε' α'} (h : ResultRel E P r r') :
    Lockstep R E P (Tx.ofExcept r) (Tx.ofExcept r') := h

theorem pure {a : α} {a' : α'} (h : P a a') : Lockstep R E P (Pure.pure a) (Pure.pure a') := h

theorem fail {e : ε} {e' : ε'} (h : E e e') : Lockstep R E P (Tx.fail e) (Tx.fail e') := h

theorem view {io : ε} {io' : ε'} {f : σ → Except ε α} {f' : σ' → Except ε' α'}
    (h : ∀ s s', R s s' → ResultRel E P (f s) (f' s')) : Lockstep R E P (Tx.view io f) (Tx.view io' f') :=
  fun s s' hs => ⟨hs, h s s' hs⟩

theorem update {io : ε} {io' : ε'} {f : σ → Except ε (α × σ)} {f' : σ' → Except ε' (α' × σ')}
    (h : ∀ s s', R s s' → ResultRel E (fun x x' => P x.1 x'.1 ∧ R x.2 x'.2) (f s) (f' s')) :
    Lockstep R E P (Tx.update io f) (Tx.update io' f') := by
  intro s s' hs
  have hff := h s s' hs
  rcases hf : f s with e | x <;> rcases hf' : f' s' with e' | x' <;> rw [hf, hf'] at hff
  · simp only [hf, hf']
    exact ⟨hs, hff⟩
  · exact hff.elim
  · exact hff.elim
  · simp only [hf, hf']
    exact ⟨hff.2, hff.1⟩

theorem bind {f : α → Tx ε σ β} {f' : α' → Tx ε' σ' β'} (hf : ∀ a a', P a a' → Lockstep R E Q (f a) (f' a')) :
    ∀ {p : Tx ε σ α} {p' : Tx ε' σ' α'}, Lockstep R E P p p' → Lockstep R E Q (p >>= f) (p' >>= f')
  | ret (.ok a), ret (.ok a'), h => hf a a' h
  | ret (.error _), ret (.error _), h => h
  | step _ _, step _ _, h => fun s s' hs => ⟨(h s s' hs).1, bind hf (h s s' hs).2⟩

theorem mapError {f : ε → δ} {f' : ε' → δ'} (hf : ∀ e e', E e e' → D (f e) (f' e')) :
    ∀ {p : Tx ε σ α} {p' : Tx ε' σ' α'}, Lockstep R E P p p' → Lockstep R D P (p.mapError f) (p'.mapError f')
  | ret (.ok _), ret (.ok _), h => h
  | ret (.error e), ret (.error e'), h => hf e e' h
  | step _ _, step _ _, h => fun s s' hs => ⟨(h s s' hs).1, mapError hf (h s s' hs).2⟩

/-- Errors that are the same, rewritten in the same way. -/
theorem mapErrorEq {p : Tx ε σ α} {p' : Tx ε σ' α'} {f : ε → δ} (h : Lockstep R Eq P p p') :
    Lockstep R Eq P (p.mapError f) (p'.mapError f) :=
  mapError (fun _ _ he => congrArg f he) h

/-- Programs that end in no error may be rewritten in any way. -/
theorem mapErrorNever {p : Tx ε σ α} {p' : Tx ε' σ' α'} {f : ε → δ} {f' : ε' → δ'}
    (h : Lockstep R (fun _ _ => False) P p p') : Lockstep R D P (p.mapError f) (p'.mapError f') :=
  mapError (fun _ _ he => he.elim) h

theorem ite {c c' : Prop} [Decidable c] [Decidable c'] {p q : Tx ε σ α} {p' q' : Tx ε' σ' α'} (hc : c ↔ c')
    (hp : Lockstep R E P p p') (hq : Lockstep R E P q q') :
    Lockstep R E P (if c then p else q) (if c' then p' else q') := by
  by_cases h : c
  · rw [if_pos h, if_pos (hc.mp h)]
    exact hp
  · rw [if_neg h, if_neg fun h' => h (hc.mpr h')]
    exact hq

/-- Both programs go through the same list. -/
theorem forEach {γ : Type} {f : γ → Tx ε σ Unit} {f' : γ → Tx ε' σ' Unit} (hf : ∀ a, Lockstep R E Eq (f a) (f' a)) :
    ∀ as : List γ, Lockstep R E Eq (Tx.forEach as f) (Tx.forEach as f')
  | [] => Lockstep.pure rfl
  | a :: as => bind (fun _ _ _ => forEach hf as) (hf a)

/-- Either program has ended with `r` if the other one has. -/
theorem ret_iff {r : Except ε α} : ∀ {p : Tx ε σ α} {q : Tx ε σ' α}, Lockstep R Eq Eq p q → (p = ret r ↔ q = ret r)
  | ret _, ret _, h => by rw [ResultRel.eq h]; simp only [ret.injEq]
  | step _ _, step _ _, _ => iff_of_false nofun nofun

end Lockstep

/-! ### Programs that share a store -/

namespace Config

variable {ι : Type} [DecidableEq ι] {c : Config ι ε σ α} {c' : Config ι ε' σ' α'}

theorem step_lockstep (hstore : R c.store c'.store) (hprocs : ∀ i, Lockstep R E P (c.procs i) (c'.procs i)) (i : ι) :
    R (c.step i).store (c'.step i).store ∧ ∀ j, Lockstep R E P ((c.step i).procs j) ((c'.step i).procs j) := by
  have hi := hprocs i
  rcases hp : c.procs i with r | ⟨eff, next⟩ <;> rcases hp' : c'.procs i with r' | ⟨eff', next'⟩ <;> rw [hp, hp'] at hi
  · rw [step_of_ret hp, step_of_ret hp']
    exact ⟨hstore, hprocs⟩
  · exact hi.elim
  · exact hi.elim
  · obtain ⟨hstore', hnext⟩ := hi _ _ hstore
    refine ⟨by rwa [step_store hp, step_store hp'], fun j => ?_⟩
    by_cases hj : j = i
    · rw [hj, step_procs_self hp, step_procs_self hp']
      exact hnext
    · rw [step_procs_ne hj, step_procs_ne hj]
      exact hprocs j

/-- However their transactions are interleaved, the programs on both sides stay in
lockstep and the stores related. -/
theorem run_lockstep : ∀ (sched : List ι) {c : Config ι ε σ α} {c' : Config ι ε' σ' α'}, R c.store c'.store →
    (∀ i, Lockstep R E P (c.procs i) (c'.procs i)) →
    R (c.run sched).store (c'.run sched).store ∧
      ∀ i, Lockstep R E P ((c.run sched).procs i) ((c'.run sched).procs i)
  | [], _, _, hstore, hprocs => ⟨hstore, hprocs⟩
  | i :: sched, _, _, hstore, hprocs =>
    have h := step_lockstep hstore hprocs i
    run_lockstep sched h.1 h.2

end Config
end Tx
