/-
# Parsers

A parser takes a value from the front of a text, or fails. What it leaves is
never longer than the text. Parsers run one after the other; one can look ahead
without taking anything; and a loop of them ends when each of its turns takes
something.

Key definitions: `Parser`, `Parser.ahead`, `Parser.orElse`, `Parser.Yields`, `Parser.iterate`.
Key theorems: `Parser.run_bind_eq_some`, `Parser.run_iterate_of_inl`, `Parser.run_iterate_map`, `Parser.of_run_iterate`.
-/
import Mathlib.Data.Nat.Notation

structure Parser (α : Type) where
  run : List Char → Option (α × List Char)
  rest_le : ∀ {cs a rest}, run cs = some (a, rest) → rest.length ≤ cs.length

namespace Parser

variable {α β σ : Type} {p : Parser α} {f : α → Parser β} {a : α} {cs rest : List Char}

instance : Monad Parser where
  pure a := ⟨fun cs => some (a, cs), by
    rintro cs _ _ h
    cases h
    exact Nat.le_refl _⟩
  bind p f := ⟨fun cs => (p.run cs).bind fun r => (f r.1).run r.2, by
    intro cs b rest h
    obtain ⟨⟨a, mid⟩, hp, hf⟩ := Option.bind_eq_some_iff.mp h
    exact Nat.le_trans ((f a).rest_le hf) (p.rest_le hp)⟩

/-- A reader that always has a value. -/
def total (f : List Char → α × List Char) (hf : ∀ cs, (f cs).2.length ≤ cs.length) : Parser α :=
  ⟨fun cs => some (f cs), by
    intro cs a rest h
    have hrest : f cs = (a, rest) := Option.some.inj h
    rw [show rest = (f cs).2 from hrest ▸ rfl]
    exact hf cs⟩

def fail : Parser α := ⟨fun _ => none, fun h => nomatch h⟩

/-- What the parser would take; the text stays. -/
def ahead (p : Parser α) : Parser α :=
  ⟨fun cs => (p.run cs).map fun r => (r.1, cs), by
    intro cs a rest h
    obtain ⟨r, _, heq⟩ := Option.map_eq_some_iff.mp h
    cases heq
    exact Nat.le_refl _⟩

/-- Where the first parser fails the second one starts again. -/
def orElse (p q : Parser α) : Parser α :=
  ⟨fun cs => (p.run cs).or (q.run cs), by
    intro cs a rest h
    rcases Option.or_eq_some_iff.mp h with hp | ⟨_, hq⟩
    · exact p.rest_le hp
    · exact q.rest_le hq⟩

theorem run_pure (a : α) (cs : List Char) : (pure a : Parser α).run cs = some (a, cs) := rfl

theorem run_bind (p : Parser α) (f : α → Parser β) (cs : List Char) :
    (p >>= f).run cs = (p.run cs).bind fun r => (f r.1).run r.2 := rfl

theorem run_bind_of_some (h : p.run cs = some (a, rest)) : (p >>= f).run cs = (f a).run rest := by
  rw [run_bind, h, Option.bind_some]

theorem run_bind_of_none (h : p.run cs = none) : (p >>= f).run cs = none := by
  rw [run_bind, h, Option.bind_none]

theorem run_bind_eq_some {r : β × List Char} :
    (p >>= f).run cs = some r ↔ ∃ a mid, p.run cs = some (a, mid) ∧ (f a).run mid = some r := by
  rw [run_bind, Option.bind_eq_some_iff]
  constructor
  · rintro ⟨⟨a, mid⟩, hp, hf⟩
    exact ⟨a, mid, hp, hf⟩
  · rintro ⟨a, mid, hp, hf⟩
    exact ⟨(a, mid), hp, hf⟩

theorem run_ahead_of_some (h : p.run cs = some (a, rest)) : (ahead p).run cs = some (a, cs) := by
  show (p.run cs).map _ = _
  rw [h, Option.map_some]

theorem run_orElse_of_some {q : Parser α} (h : p.run cs = some (a, rest)) : (orElse p q).run cs = some (a, rest) := by
  show (p.run cs).or _ = _
  rw [h, Option.some_or]

theorem run_orElse_eq_some {q : Parser α} {r : α × List Char} (h : (orElse p q).run cs = some r) :
    p.run cs = some r ∨ q.run cs = some r := by
  have hor : (p.run cs).or (q.run cs) = some r := h
  rcases Option.or_eq_some_iff.mp hor with hp | ⟨_, hq⟩
  · exact .inl hp
  · exact .inr hq

/-- What is true of every value the parser takes. -/
def Yields (p : Parser α) (Q : α → Prop) : Prop := ∀ ⦃cs a rest⦄, p.run cs = some (a, rest) → Q a

theorem yields_pure {Q : α → Prop} (h : Q a) : Yields (pure a) Q := by
  intro cs b rest hrun
  cases hrun
  exact h

theorem yields_fail {Q : α → Prop} : Yields fail Q := fun _ _ _ h => nomatch h

theorem yields_bind {Q : β → Prop} (h : ∀ a, Yields (f a) Q) : Yields (p >>= f) Q := by
  intro cs b rest hrun
  obtain ⟨a, mid, _, hf⟩ := run_bind_eq_some.mp hrun
  exact h a hf

/-! ### Loops -/

section Loops

variable {turn : σ → Parser (σ ⊕ α)} {s s' : σ}

/-- A number of turns, of which the last one gives the result. -/
def turns (turn : σ → Parser (σ ⊕ α)) : ℕ → σ → Parser α
  | 0, _ => fail
  | n + 1, s => do
    match ← turn s with
    | .inl s' => turns turn n s'
    | .inr a => pure a

/-- A loop: at most as many turns as there are characters, and one more. -/
def iterate (turn : σ → Parser (σ ⊕ α)) (s : σ) : Parser α :=
  ⟨fun cs => (turns turn (cs.length + 1) s).run cs, fun h => (turns turn _ s).rest_le h⟩

/-- Each turn that is not the last takes something. -/
def Takes (turn : σ → Parser (σ ⊕ α)) : Prop :=
  ∀ ⦃s cs s' rest⦄, (turn s).run cs = some (.inl s', rest) → rest.length < cs.length

theorem run_turns_of_inl {n : ℕ} (h : (turn s).run cs = some (.inl s', rest)) :
    (turns turn (n + 1) s).run cs = (turns turn n s').run rest := by
  rw [turns, run_bind_of_some h]

theorem run_turns_of_inr {n : ℕ} (h : (turn s).run cs = some (.inr a, rest)) :
    (turns turn (n + 1) s).run cs = some (a, rest) := by
  rw [turns, run_bind_of_some h, run_pure]

/-- As many turns as there are characters, and one more, are enough. -/
theorem run_turns_eq (hturn : Takes turn) {n k : ℕ} : ∀ {s : σ} {cs : List Char}, cs.length < n → cs.length < k →
    (turns turn n s).run cs = (turns turn k s).run cs := by
  induction n generalizing k with
  | zero => exact fun h => absurd h (Nat.not_lt_zero _)
  | succ n ih =>
    intro s cs hn hk
    obtain ⟨k, rfl⟩ : ∃ j, k = j + 1 := ⟨k - 1, by omega⟩
    cases hrun : (turn s).run cs with
    | none => rw [turns, turns, run_bind_of_none hrun, run_bind_of_none hrun]
    | some r =>
      obtain ⟨t, rest⟩ := r
      cases t with
      | inr a => rw [run_turns_of_inr hrun, run_turns_of_inr hrun]
      | inl s' =>
        have hshort := hturn hrun
        rw [run_turns_of_inl hrun, run_turns_of_inl hrun]
        exact ih (by omega) (by omega)

theorem run_iterate_of_inl (hturn : Takes turn) (h : (turn s).run cs = some (.inl s', rest)) :
    (iterate turn s).run cs = (iterate turn s').run rest := by
  have hshort := hturn h
  show (turns turn (cs.length + 1) s).run cs = (turns turn (rest.length + 1) s').run rest
  rw [run_turns_of_inl h]
  exact run_turns_eq hturn (by omega) (by omega)

theorem run_iterate_of_inr (h : (turn s).run cs = some (.inr a, rest)) : (iterate turn s).run cs = some (a, rest) :=
  run_turns_of_inr h

theorem run_iterate_of_none (h : (turn s).run cs = none) : (iterate turn s).run cs = none := by
  show (turns turn (cs.length + 1) s).run cs = none
  rw [turns, run_bind_of_none h]

/-- A change of the state that every turn carries along changes the result. -/
theorem run_iterate_map {f : σ → σ} {h : α → α}
    (hturn : ∀ s cs, (turn (f s)).run cs = ((turn s).run cs).map (Prod.map (Sum.map f h) id)) (s : σ) (cs : List Char) :
    (iterate turn (f s)).run cs = ((iterate turn s).run cs).map (Prod.map h id) := by
  have hturns : ∀ (n : ℕ) (s : σ) (cs : List Char),
      (turns turn n (f s)).run cs = ((turns turn n s).run cs).map (Prod.map h id) := by
    intro n
    induction n with
    | zero => exact fun _ _ => rfl
    | succ n ih =>
      intro s cs
      have hfirst := hturn s cs
      cases hrun : (turn s).run cs with
      | none =>
        rw [hrun, Option.map_none] at hfirst
        rw [turns, turns, run_bind_of_none hfirst, run_bind_of_none hrun, Option.map_none]
      | some r =>
        obtain ⟨t, rest⟩ := r
        rw [hrun, Option.map_some] at hfirst
        cases t with
        | inl s' =>
          rw [run_turns_of_inl hrun, run_turns_of_inl hfirst]
          exact ih s' rest
        | inr a =>
          rw [run_turns_of_inr hrun, run_turns_of_inr hfirst]
          rfl
  exact hturns (cs.length + 1) s cs

/-- What holds at the start of a loop and after each turn holds at its end. -/
theorem of_run_iterate {I : σ → Prop} {Q : α → Prop} (hstart : I s)
    (hstep : ∀ {s cs s' rest}, I s → (turn s).run cs = some (.inl s', rest) → I s')
    (hstop : ∀ {s cs a rest}, I s → (turn s).run cs = some (.inr a, rest) → Q a)
    (h : (iterate turn s).run cs = some (a, rest)) : Q a := by
  have hturns : ∀ {n s cs}, I s → (turns turn n s).run cs = some (a, rest) → Q a := by
    intro n
    induction n with
    | zero => exact fun _ hrun => nomatch hrun
    | succ n ih =>
      intro s cs hs hrun
      obtain ⟨t, mid, hturn, hnext⟩ := run_bind_eq_some.mp hrun
      cases t with
      | inl s' => exact ih (hstep hs hturn) hnext
      | inr b =>
        cases hnext
        exact hstop hs hturn
  have hrun : (turns turn (cs.length + 1) s).run cs = some (a, rest) := h
  exact hturns hstart hrun

end Loops

end Parser
