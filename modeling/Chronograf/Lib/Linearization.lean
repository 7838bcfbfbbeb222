/-
# Programs that take effect at once

A program may need several transactions for what looks like one operation on
what the store means. When exactly one of them is seen in the meaning, any number
of such programs, their transactions interleaved, can be put in an order in which
they do and answer what they would one after the other: each has its place between
its first and its last transaction.

Key definitions: `Tx.Atomic`, `Tx.Settled`, `Tx.after`, `Tx.Linearized`.
Key theorems: `Tx.Linearized.step`, `Tx.Linearized.run`, `Tx.Linearized.answer`,
`Tx.run_linearized`.
-/
import Chronograf.Lib.Interleaving
import Mathlib.Data.List.Nodup

namespace Tx

variable {ε σ τ α : Type}

/-- Nothing more is seen of the program, and it ends with `r`. -/
def Settled (V : σ → Prop) (abs : σ → τ) (r : Except ε α) : Tx ε σ α → Prop
  | ret r' => r' = r
  | step eff next => ∀ s, V s → V (eff s) ∧ abs (eff s) = abs s ∧ Settled V abs r (next (some s))

/-- One transaction of the program, whichever, is seen as the operation `op`, or it
ends with the answer that `op` gives without an effect. -/
def Atomic (V : σ → Prop) (abs : σ → τ) (op : τ → Except ε α × τ) : Tx ε σ α → Prop
  | ret r => ∀ t, op t = (r, t)
  | step eff next => ∀ s, V s → V (eff s) ∧ (abs (eff s) = abs s ∧ Atomic V abs op (next (some s)) ∨
    abs (eff s) = (op (abs s)).2 ∧ Settled V abs (op (abs s)).1 (next (some s)))

/-! ### The rules -/

section Rules

variable {V : σ → Prop} {abs : σ → τ} {op : τ → Except ε α × τ} {r : Except ε α}

theorem Atomic.fail {e : ε} (h : ∀ t, op t = (.error e, t)) : Atomic V abs op (Tx.fail e : Tx ε σ α) := h

theorem Atomic.ofExcept_bind {β : Type} {c : Except ε β} {f : β → Tx ε σ α} (herr : ∀ e t, c = .error e → op t = (.error e, t))
    (hok : ∀ b, c = .ok b → Atomic V abs op (f b)) : Atomic V abs op (Tx.ofExcept c >>= f) := by
  cases c with
  | error e => exact fun t => herr e t rfl
  | ok b => exact hok b rfl

variable {ε' β : Type} {io : ε'} {g : ε' → ε} {k : β → Tx ε σ α}

/-- A read in which the program takes effect, as far as it has one. -/
theorem Atomic.view_seen {f : σ → Except ε' β} (h : ∀ s, V s → ∃ b, f s = .ok b ∧ (op (abs s)).2 = abs s ∧
    Settled V abs (op (abs s)).1 (k b)) : Atomic V abs op ((Tx.view io f).mapError g >>= k) := by
  intro s hs
  obtain ⟨b, hf, hstate, hsettled⟩ := h s hs
  refine ⟨hs, .inr ⟨hstate.symm, ?_⟩⟩
  simp only [hf]
  exact hsettled

/-- A read before the program takes effect. -/
theorem Atomic.view_unseen {f : σ → Except ε' β} (h : ∀ s, V s → ∃ b, f s = .ok b ∧ Atomic V abs op (k b)) :
    Atomic V abs op ((Tx.view io f).mapError g >>= k) := by
  intro s hs
  obtain ⟨b, hf, hatomic⟩ := h s hs
  refine ⟨hs, .inl ⟨rfl, ?_⟩⟩
  simp only [hf]
  exact hatomic

/-- A write in which the program takes effect. -/
theorem Atomic.update_seen {f : σ → Except ε' (β × σ)} (h : ∀ s, V s → ∃ b s', f s = .ok (b, s') ∧ V s' ∧
    abs s' = (op (abs s)).2 ∧ Settled V abs (op (abs s)).1 (k b)) : Atomic V abs op ((Tx.update io f).mapError g >>= k) := by
  intro s hs
  obtain ⟨b, s', hf, hvalid, hstate, hsettled⟩ := h s hs
  simp only [hf]
  exact ⟨hvalid, .inr ⟨hstate, hsettled⟩⟩

/-- A write that is not seen, before the program takes effect. -/
theorem Atomic.update_unseen {f : σ → Except ε' (β × σ)} (h : ∀ s, V s → ∃ b s', f s = .ok (b, s') ∧ V s' ∧
    abs s' = abs s ∧ Atomic V abs op (k b)) : Atomic V abs op ((Tx.update io f).mapError g >>= k) := by
  intro s hs
  obtain ⟨b, s', hf, hvalid, hstate, hatomic⟩ := h s hs
  simp only [hf]
  exact ⟨hvalid, .inl ⟨hstate, hatomic⟩⟩

end Rules

/-! ### Putting programs in an order -/

variable {ι : Type}

/-- What the operations of the list, one after the other, make of the meaning. -/
def after (ops : ι → τ → Except ε α × τ) (order : List ι) (t : τ) : τ := order.foldl (fun t i => (ops i t).2) t

/-- The programs of `order` have had their effects in this order, the others have none yet. -/
structure Linearized (V : σ → Prop) (abs : σ → τ) (ops : ι → τ → Except ε α × τ) (t : τ) (c : Config ι ε σ α)
    (order : List ι) : Prop where
  valid : V c.store
  nodup : order.Nodup
  store : abs c.store = after ops order t
  pending : ∀ i, i ∉ order → Atomic V abs (ops i) (c.procs i)
  settled : ∀ before i later, order = before ++ i :: later → Settled V abs (ops i (after ops before t)).1 (c.procs i)

namespace Linearized

variable [DecidableEq ι] {V : σ → Prop} {abs : σ → τ} {ops : ι → τ → Except ε α × τ} {t : τ} {c : Config ι ε σ α}
  {order : List ι}

/-- A transaction that is not seen. -/
theorem step_unseen {i : ι} {eff : σ → σ} {next : Option σ → Tx ε σ α} (h : Linearized V abs ops t c order)
    (hp : c.procs i = .step eff next) (hvalid : V (eff c.store)) (hstore : abs (eff c.store) = abs c.store)
    (hpending : i ∉ order → Atomic V abs (ops i) (next (some c.store)))
    (hsettled : ∀ before later, order = before ++ i :: later →
      Settled V abs (ops i (after ops before t)).1 (next (some c.store))) : Linearized V abs ops t (c.step i) order where
  valid := by rwa [Config.step_store hp]
  nodup := h.nodup
  store := by rw [Config.step_store hp, hstore, h.store]
  pending j hj := by
    by_cases hji : j = i
    · subst hji
      rw [Config.step_procs_self hp]
      exact hpending hj
    · rw [Config.step_procs_ne hji]
      exact h.pending j hj
  settled before j later horder := by
    by_cases hji : j = i
    · subst hji
      rw [Config.step_procs_self hp]
      exact hsettled before later horder
    · rw [Config.step_procs_ne hji]
      exact h.settled before j later horder

/-- The transaction with which a program takes its place. -/
theorem step_seen {i : ι} {eff : σ → σ} {next : Option σ → Tx ε σ α} (h : Linearized V abs ops t c order)
    (hp : c.procs i = .step eff next) (hi : i ∉ order) (hvalid : V (eff c.store))
    (hstore : abs (eff c.store) = (ops i (abs c.store)).2)
    (hsettled : Settled V abs (ops i (abs c.store)).1 (next (some c.store))) :
    Linearized V abs ops t (c.step i) (order ++ [i]) where
  valid := by rwa [Config.step_store hp]
  nodup := List.nodup_append.mpr ⟨h.nodup, List.nodup_singleton i, fun a ha b hb hab => hi (by
    rw [List.mem_singleton.mp hb] at hab
    rwa [← hab])⟩
  store := by
    rw [Config.step_store hp, hstore, h.store]
    show _ = (order ++ [i]).foldl (fun t i => (ops i t).2) t
    rw [List.foldl_append]
    rfl
  pending j hj := by
    have hji : j ≠ i := fun heq => hj (by simp [heq])
    rw [Config.step_procs_ne hji]
    exact h.pending j fun hmem => hj (List.mem_append_left _ hmem)
  settled before j later horder := by
    rcases later.eq_nil_or_concat with rfl | ⟨later, last, rfl⟩
    · obtain ⟨rfl, hij⟩ := List.append_inj' horder rfl
      obtain rfl : i = j := (List.cons.inj hij).1
      rw [Config.step_procs_self hp, ← h.store]
      exact hsettled
    · rw [List.concat_eq_append, ← List.cons_append, ← List.append_assoc] at horder
      obtain ⟨horder, -⟩ := List.append_inj' horder rfl
      have hji : j ≠ i := fun heq => hi (by rw [horder, heq]; simp)
      rw [Config.step_procs_ne hji]
      exact h.settled before j later horder

/-- The next transaction, whoever makes it. -/
theorem step (h : Linearized V abs ops t c order) (i : ι) :
    Linearized V abs ops t (c.step i) order ∨ Linearized V abs ops t (c.step i) (order ++ [i]) := by
  rcases hp : c.procs i with r | ⟨eff, next⟩
  · rw [Config.step_of_ret hp]
    exact .inl h
  · by_cases hi : i ∈ order
    · obtain ⟨before, later, horder⟩ := List.append_of_mem hi
      have hsettled := h.settled before i later horder
      rw [hp] at hsettled
      obtain ⟨hvalid, hstore, -⟩ := hsettled c.store h.valid
      refine .inl (h.step_unseen hp hvalid hstore (fun hno => absurd hi hno) fun before' later' horder' => ?_)
      have hsettled' := h.settled before' i later' horder'
      rw [hp] at hsettled'
      exact (hsettled' c.store h.valid).2.2
    · have hatomic := h.pending i hi
      rw [hp] at hatomic
      rcases hatomic c.store h.valid with ⟨hvalid, ⟨hstore, hrest⟩ | ⟨hstore, hrest⟩⟩
      · exact .inl (h.step_unseen hp hvalid hstore (fun _ => hrest) fun before later horder =>
          absurd (by rw [horder]; simp) hi)
      · exact .inr (h.step_seen hp hi hvalid hstore hrest)

/-- Every run goes on with the order, each program taking its place in one of its own transactions. -/
theorem run : ∀ (sched : List ι) {c : Config ι ε σ α} {order : List ι}, Linearized V abs ops t c order →
    ∃ more, more.Sublist sched ∧ Linearized V abs ops t (c.run sched) (order ++ more)
  | [], _, _, h => ⟨[], List.Sublist.refl [], by rwa [List.append_nil]⟩
  | i :: sched, c, order, h => by
    rcases h.step i with h' | h'
    · obtain ⟨more, hmore, hrun⟩ := run sched h'
      exact ⟨more, hmore.cons i, hrun⟩
    · obtain ⟨more, hmore, hrun⟩ := run sched h'
      refine ⟨i :: more, hmore.cons_cons i, ?_⟩
      rwa [List.append_assoc, List.singleton_append] at hrun

/-- A program that has ended gave the answer of its place, or one it would give anywhere. -/
theorem answer (h : Linearized V abs ops t c order) {i : ι} {r : Except ε α} (hi : c.procs i = .ret r) :
    (∃ before later, order = before ++ i :: later ∧ r = (ops i (after ops before t)).1) ∨
      i ∉ order ∧ ∀ t', ops i t' = (r, t') := by
  by_cases hmem : i ∈ order
  · obtain ⟨before, later, horder⟩ := List.append_of_mem hmem
    have hsettled := h.settled before i later horder
    rw [hi] at hsettled
    exact .inl ⟨before, later, horder, hsettled⟩
  · have hatomic := h.pending i hmem
    rw [hi] at hatomic
    exact .inr ⟨hmem, hatomic⟩

end Linearized

/-- Programs that take effect at once have an order at every moment of a run, and
later moments only go on with it. -/
theorem run_linearized [DecidableEq ι] {V : σ → Prop} {abs : σ → τ} {ops : ι → τ → Except ε α × τ} {c : Config ι ε σ α}
    (hvalid : V c.store) (hc : ∀ i, Atomic V abs (ops i) (c.procs i)) (now later : List ι) :
    ∃ order more, order.Sublist now ∧ more.Sublist later ∧ Linearized V abs ops (abs c.store) (c.run now) order ∧
      Linearized V abs ops (abs c.store) (c.run (now ++ later)) (order ++ more) := by
  have hstart : Linearized V abs ops (abs c.store) c [] :=
    ⟨hvalid, List.nodup_nil, rfl, fun i _ => hc i, fun before i later h => absurd h.symm (by simp)⟩
  obtain ⟨order, horder, hnow⟩ := hstart.run now
  obtain ⟨more, hmore, hlater⟩ := hnow.run later
  refine ⟨order, more, horder, hmore, hnow, ?_⟩
  have happend : c.run (now ++ later) = (c.run now).run later := List.foldl_append
  rw [happend]
  exact hlater

end Tx
