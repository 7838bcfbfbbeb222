/-
# Replacing every occurrence

The occurrences of a text are replaced from left to right, each one after the
end of the last. Where the new text is longer than the old one this changes
every text that has an occurrence; where it contains the old one, the result
has an occurrence again.

Key definition: `replaceAll`.
Key theorems: `replaceAll_eq_self_iff`, `replaceAll_twice_iff`.
-/
import Mathlib.Data.List.Infix
import Mathlib.Data.Nat.Notation

namespace Replace

variable {α : Type} [DecidableEq α] {old new : List α}

/-- The text from the point where the last occurrence is `k` elements from its end. -/
def replaceFrom (old new : List α) : ℕ → List α → List α
  | _, [] => []
  | k + 1, _ :: s => replaceFrom old new k s
  | 0, a :: s =>
    if old.isPrefixOf (a :: s) then new ++ replaceFrom old new (old.length - 1) s
    else a :: replaceFrom old new 0 s

def replaceAll (old new s : List α) : List α := replaceFrom old new 0 s

/-- The text with its first occurrence replaced. -/
def replaceFirst (old new : List α) : List α → List α
  | [] => []
  | a :: s => if old.isPrefixOf (a :: s) then new ++ (a :: s).drop old.length else a :: replaceFirst old new s

theorem replaceFrom_of_match {a : α} {s : List α} (h : old <+: a :: s) :
    replaceFrom old new 0 (a :: s) = new ++ replaceFrom old new (old.length - 1) s := by
  rw [replaceFrom, if_pos (List.isPrefixOf_iff_prefix.mpr h)]

theorem replaceFrom_of_no_match {a : α} {s : List α} (h : ¬ old <+: a :: s) :
    replaceFrom old new 0 (a :: s) = a :: replaceFrom old new 0 s := by
  rw [replaceFrom, if_neg (mt List.isPrefixOf_iff_prefix.mp h)]

/-- Without an occurrence nothing happens. -/
theorem replaceAll_of_absent : ∀ {s : List α}, ¬ old <:+: s → replaceAll old new s = s
  | [], _ => rfl
  | a :: s, h => by
    have hprefix : ¬ old <+: a :: s := fun hp => h hp.isInfix
    have hrest : ¬ old <:+: s := fun hs => h (hs.trans (List.suffix_cons a s).isInfix)
    rw [replaceAll, replaceFrom_of_no_match hprefix]
    exact congrArg (a :: ·) (replaceAll_of_absent hrest)

/-- The rest of an occurrence is skipped. -/
theorem replaceFrom_skip : ∀ (a s : List α), replaceFrom old new a.length (a ++ s) = replaceFrom old new 0 s
  | [], _ => rfl
  | _ :: a, s => replaceFrom_skip a s

/-- What no occurrence begins in is kept. -/
theorem replaceFrom_keep : ∀ {a s : List α}, (∀ i < a.length, ¬ old <+: (a ++ s).drop i) →
    replaceFrom old new 0 (a ++ s) = a ++ replaceFrom old new 0 s
  | [], _, _ => rfl
  | b :: a, s, h => by
    have hfirst : ¬ old <+: b :: (a ++ s) := h 0 (Nat.zero_lt_succ _)
    rw [List.cons_append, replaceFrom_of_no_match hfirst, replaceFrom_keep fun i hi => h (i + 1) (Nat.succ_lt_succ hi)]
    rfl

section Longer

variable (hlen : old.length < new.length)

include hlen in
/-- The text does not get shorter, but for the end of the last occurrence. -/
theorem length_le_replaceFrom : ∀ (k : ℕ) (s : List α), s.length ≤ (replaceFrom old new k s).length + k
  | _, [] => by simp
  | k + 1, a :: s => by
    have ih := length_le_replaceFrom k s
    rw [replaceFrom, List.length_cons]
    omega
  | 0, a :: s => by
    by_cases hp : old <+: a :: s
    · have ih := length_le_replaceFrom (old.length - 1) s
      rw [replaceFrom_of_match hp, List.length_append, List.length_cons]
      omega
    · have ih := length_le_replaceFrom 0 s
      rw [replaceFrom_of_no_match hp, List.length_cons, List.length_cons]
      omega

include hlen in
/-- With an occurrence it gets longer. -/
theorem length_lt_replaceAll (hold : old ≠ []) : ∀ {s : List α}, old <:+: s → s.length < (replaceAll old new s).length
  | [], h => absurd (List.infix_nil.mp h) hold
  | a :: s, h => by
    have hpos : 0 < old.length := List.length_pos_of_ne_nil hold
    rw [replaceAll]
    by_cases hp : old <+: a :: s
    · have hle := length_le_replaceFrom hlen (old.length - 1) s
      rw [replaceFrom_of_match hp, List.length_append, List.length_cons]
      omega
    · have hs : old <:+: s := (List.infix_cons_iff.mp h).resolve_left hp
      have ih : s.length < (replaceFrom old new 0 s).length := length_lt_replaceAll hold hs
      rw [replaceFrom_of_no_match hp, List.length_cons, List.length_cons]
      omega

include hlen in
/-- Replacing changes a text if and only if it has an occurrence. -/
theorem replaceAll_eq_self_iff (hold : old ≠ []) {s : List α} : replaceAll old new s = s ↔ ¬ old <:+: s := by
  refine ⟨fun h hs => ?_, replaceAll_of_absent⟩
  have hlt := length_lt_replaceAll hlen hold hs
  rw [h] at hlt
  omega

/-- If the new text has an occurrence, so has the result. -/
theorem occurs_replaceAll (hold : old ≠ []) (hnew : old <:+: new) : ∀ {s : List α}, old <:+: s →
    old <:+: replaceAll old new s
  | [], h => absurd (List.infix_nil.mp h) hold
  | a :: s, h => by
    rw [replaceAll]
    by_cases hp : old <+: a :: s
    · rw [replaceFrom_of_match hp]
      exact hnew.trans (List.prefix_append new _).isInfix
    · have hs : old <:+: s := (List.infix_cons_iff.mp h).resolve_left hp
      have ih : old <:+: replaceFrom old new 0 s := occurs_replaceAll hold hnew hs
      rw [replaceFrom_of_no_match hp]
      exact ih.trans (List.suffix_cons a _).isInfix

include hlen in
/-- Replacing again changes the result if and only if the text had an occurrence. -/
theorem replaceAll_twice_iff (hold : old ≠ []) (hnew : old <:+: new) {s : List α} :
    replaceAll old new (replaceAll old new s) = replaceAll old new s ↔ ¬ old <:+: s := by
  rw [replaceAll_eq_self_iff hlen hold]
  constructor
  · exact fun h hs => h (occurs_replaceAll hold hnew hs)
  · intro hs
    rw [replaceAll_of_absent hs]
    exact hs

end Longer

end Replace
