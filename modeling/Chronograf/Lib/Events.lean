/-
# Runs of a partial step function

A step function that refuses some events, and the runs it makes of the events
that it takes. A measure that every step lowers bounds the runs; if besides
something can happen in every state that is not final, a final one is reached.

Key definition: `Events.run`.
Key theorems: `Events.run_keeps`, `Events.length_le`, `Events.finishes`.
-/
import Mathlib.Data.List.Basic
import Mathlib.Algebra.BigOperators.Fin
import Mathlib.Tactic.Abel

namespace Events

variable {σ ε : Type} (step : σ → ε → Option σ)

/-- The state after the events, if each of them can happen. -/
def run : σ → List ε → Option σ
  | s, [] => some s
  | s, e :: es => (step s e).bind fun s' => run s' es

variable {step} {I final : σ → Prop} {μ : σ → ℕ} {P : ε → Prop}

theorem run_cons {s t : σ} {e : ε} {es : List ε} (h : run step s (e :: es) = some t) :
    ∃ s', step s e = some s' ∧ run step s' es = some t := Option.bind_eq_some_iff.mp h

/-- What every step keeps, every run keeps; `P` are the events that may happen. -/
theorem run_keeps (hstep : ∀ s e s', I s → P e → step s e = some s' → I s') : ∀ (es : List ε) {s t : σ},
    (∀ e ∈ es, P e) → I s → run step s es = some t → I t
  | [], s, t, _, hs, h => by
    obtain rfl : s = t := Option.some.inj h
    exact hs
  | e :: es, s, t, hok, hs, h => by
    obtain ⟨s', he, hes⟩ := run_cons h
    have hs' : I s' := hstep s e s' hs (hok e List.mem_cons_self) he
    exact run_keeps hstep es (fun e he => hok e (List.mem_cons_of_mem _ he)) hs' hes

/-- What every step keeps that meets its condition, every run keeps whose steps all do. -/
theorem run_keeps_when {Meets : σ → ε → Prop} (hstep : ∀ s e s', I s → Meets s e → step s e = some s' → I s') :
    ∀ (es : List ε) {s t : σ}, (∀ before e after s', es = before ++ e :: after → run step s before = some s' → Meets s' e) →
    I s → run step s es = some t → I t
  | [], s, t, _, hs, h => by
    obtain rfl : s = t := Option.some.inj h
    exact hs
  | e :: es, s, t, hok, hs, h => by
    obtain ⟨s', he, hes⟩ := run_cons h
    have hs' : I s' := hstep s e s' hs (hok [] e es s rfl rfl) he
    refine run_keeps_when hstep es (fun before e' after u heq hrun => ?_) hs' hes
    refine hok (e :: before) e' after u (congrArg (e :: ·) heq) ?_
    rw [run, he]
    exact hrun

/-- A run has at most as many events as its measure allows. -/
theorem length_le (hμ : ∀ s e s', step s e = some s' → μ s' < μ s) : ∀ (es : List ε) {s t : σ},
    run step s es = some t → es.length + μ t ≤ μ s
  | [], s, t, h => by
    obtain rfl : s = t := Option.some.inj h
    simp
  | e :: es, s, t, h => by
    obtain ⟨s', he, hes⟩ := run_cons h
    have hlt := hμ s e s' he
    have hle := length_le hμ es hes
    simp only [List.length_cons]
    omega

/-- A final state can be reached by events that may happen. -/
theorem finishes (hstep : ∀ s e s', I s → P e → step s e = some s' → I s')
    (hμ : ∀ s e s', step s e = some s' → μ s' < μ s)
    (hgo : ∀ s, I s → ¬ final s → ∃ e s', P e ∧ step s e = some s') {s : σ} (hs : I s) :
    ∃ es t, (∀ e ∈ es, P e) ∧ run step s es = some t ∧ final t := by
  induction hn : μ s using Nat.strongRecOn generalizing s with
  | ind n ih =>
    by_cases hfinal : final s
    · exact ⟨[], s, by simp, rfl, hfinal⟩
    · obtain ⟨e, s', hok, he⟩ := hgo s hs hfinal
      obtain ⟨es, t, hoks, hes, ht⟩ := ih (μ s') (hn ▸ hμ s e s' he) (hstep s e s' hs hok he) rfl
      refine ⟨e :: es, t, ?_, ?_, ht⟩
      · intro e' he'
        rcases List.mem_cons.mp he' with rfl | he'
        · exact hok
        · exact hoks e' he'
      · simp [run, he, hes]

end Events

/-- One of a family is changed: its sum changes by what that one contributes. -/
theorem sum_update_add {ι α M : Type} [Fintype ι] [DecidableEq ι] [AddCommMonoid M] (f : ι → α) (g : α → M) (i : ι)
    (a : α) : ∑ j, g (Function.update f i a j) + g (f i) = ∑ j, g (f j) + g a := by
  have hupdate : ∑ j, g (Function.update f i a j) = g a + ∑ j ∈ Finset.univ.erase i, g (f j) := by
    rw [← Finset.add_sum_erase _ _ (Finset.mem_univ i), Function.update_self]
    congr 1
    refine Finset.sum_congr rfl fun j hj => ?_
    rw [Function.update_of_ne (Finset.ne_of_mem_erase hj)]
  rw [hupdate, ← Finset.add_sum_erase _ _ (Finset.mem_univ i)]
  abel
