/-
# Undoing a replacement

What is put in the place of a text can be replaced back. That finds more than
was put there if the text had it before, or if it forms across the ends of what
was put there; the latter it does not where no part of the one text runs into
the other.

Key definitions: `Clear`, `before`.
Key theorems: `replaceAll_undo`, `absent_replaceAll`, `replaceFirst_undo`,
`replaceFirst_undo_early`.
-/
import Chronograf.Lib.Replace

namespace Replace

variable {α : Type} {w v old new : List α}

/-- No end of `w`, short of all of it, goes on as `v` does. -/
def Clear (w v : List α) : Prop := ∀ y ∈ w.tail.tails, y ≠ [] → ¬ y <+: v ∧ ¬ v <+: y

instance [DecidableEq α] (w v : List α) : Decidable (Clear w v) := List.decidableBAll _ _

/-- What begins before `v` and is clear of it ends before it. -/
theorem prefix_of_clear (h : Clear w v) {u r : List α} (hu : u ≠ []) (hw : w <+: u ++ (v ++ r)) : w <+: u := by
  rcases Nat.le_or_ge w.length u.length with hle | hge
  · exact List.prefix_of_prefix_length_le hw (List.prefix_append u _) hle
  · obtain ⟨y, rfl⟩ := List.prefix_of_prefix_length_le (List.prefix_append u _) hw hge
    have hy : y <+: v ++ r := (List.prefix_append_right_inj u).mp hw
    by_cases hnil : y = []
    · rw [hnil, List.append_nil]
    · have hmem : y ∈ (u ++ y).tail.tails := by
        rw [List.mem_tails, List.tail_append_of_ne_nil hu]
        exact List.suffix_append _ _
      obtain ⟨hyv, hvy⟩ := h y hmem hnil
      rcases List.prefix_or_prefix_of_prefix hy (List.prefix_append v r) with hp | hp
      · exact absurd hp hyv
      · exact absurd hp hvy

variable [DecidableEq α]

/-! ### Every occurrence -/

theorem replaceAll_cons_of_match {s : List α} (hold : old ≠ []) : replaceAll old new (old ++ s) = new ++ replaceAll old new s := by
  cases old with
  | nil => exact absurd rfl hold
  | cons a old =>
    have hp : a :: old <+: a :: (old ++ s) := List.prefix_append (a :: old) s
    rw [replaceAll, List.cons_append, replaceFrom_of_match hp]
    exact congrArg (new ++ ·) (replaceFrom_skip old s)

theorem replaceAll_cons_of_no_match {a : α} {s : List α} (h : ¬ old <+: a :: s) :
    replaceAll old new (a :: s) = a :: replaceAll old new s := replaceFrom_of_no_match h

/-- A text is empty, begins with `old`, or does not. -/
theorem match_induction (hold : old ≠ []) {motive : List α → Prop} (nil : motive []) (found : ∀ s, motive s → motive (old ++ s))
    (next : ∀ a s, ¬ old <+: a :: s → motive s → motive (a :: s)) (s : List α) : motive s := by
  induction hn : s.length using Nat.strongRecOn generalizing s with
  | ind n ih =>
    subst hn
    cases s with
    | nil => exact nil
    | cons a s =>
      by_cases hp : old <+: a :: s
      · obtain ⟨t, ht⟩ := hp
        rw [← ht]
        refine found t (ih t.length ?_ t rfl)
        have hpos : 0 < old.length := List.length_pos_of_ne_nil hold
        rw [← ht, List.length_append]
        omega
      · exact next a s hp (ih s.length (Nat.lt_succ_self _) s rfl)

/-- What begins before the replaced text was there before, if it is clear of what was put there. -/
theorem prefix_of_replaceAll (hold : old ≠ []) (h : Clear w new) {s u : List α} (hu : u ≠ [])
    (hw : w <+: u ++ replaceAll old new s) : w <+: u ++ s := by
  induction s using match_induction hold generalizing u with
  | nil => exact hw
  | found s _ =>
    rw [replaceAll_cons_of_match hold] at hw
    exact (prefix_of_clear h hu hw).trans (List.prefix_append u _)
  | next a s hp ih =>
    rw [replaceAll_cons_of_no_match hp] at hw
    have hw' : w <+: u ++ [a] ++ replaceAll old new s := by rwa [List.append_assoc]
    have hnext := ih (List.append_ne_nil_of_right_ne_nil u (List.cons_ne_nil a [])) hw'
    rwa [List.append_assoc] at hnext

/-- Undone, where the new text was not there before. -/
theorem replaceAll_undo (hold : old ≠ []) (hnew : new ≠ []) (h : Clear new new) {s : List α} (hs : ¬ new <:+: s) :
    replaceAll new old (replaceAll old new s) = s := by
  induction s using match_induction hold with
  | nil => rfl
  | found s ih =>
    rw [replaceAll_cons_of_match hold, replaceAll_cons_of_match hnew, ih fun hi => hs (hi.trans (List.suffix_append _ _).isInfix)]
  | next a s hp ih =>
    have hno : ¬ new <+: a :: replaceAll old new s := fun hw =>
      hs (prefix_of_replaceAll hold h (List.cons_ne_nil a []) hw).isInfix
    rw [replaceAll_cons_of_no_match hp, replaceAll_cons_of_no_match hno,
      ih fun hi => hs (hi.trans (List.suffix_cons a s).isInfix)]

/-- No occurrence is left, where neither text runs into the other. -/
theorem absent_replaceAll (hold : old ≠ []) (h : Clear old new)
    (h' : ∀ y ∈ new.tails, y ≠ [] → ¬ y <+: old ∧ ¬ old <+: y) (s : List α) : ¬ old <:+: replaceAll old new s := by
  induction s using match_induction hold with
  | nil => exact fun hi => hold (List.infix_nil.mp hi)
  | found s ih =>
    rw [replaceAll_cons_of_match hold]
    have hsuffix : ∀ y : List α, y <:+ new → ¬ old <:+: y ++ replaceAll old new s := by
      intro y
      induction y with
      | nil => exact fun _ => ih
      | cons a y ihy =>
        intro hy hi
        rcases List.infix_cons_iff.mp hi with hp | hi
        · obtain ⟨hyo, hoy⟩ := h' (a :: y) ((List.mem_tails _ _).mpr hy) (List.cons_ne_nil a y)
          rcases List.prefix_or_prefix_of_prefix hp (List.prefix_append (a :: y) _) with hq | hq
          · exact hoy hq
          · exact hyo hq
        · exact ihy ((List.suffix_cons a y).trans hy) hi
    exact hsuffix new List.suffix_rfl
  | next a s hp ih =>
    rw [replaceAll_cons_of_no_match hp]
    intro hi
    rcases List.infix_cons_iff.mp hi with hq | hi
    · exact hp (prefix_of_replaceAll hold h (List.cons_ne_nil a []) hq)
    · exact ih hi

/-- Parts are replaced apart where no occurrence runs from one into the other. -/
theorem replaceAll_append (hold : old ≠ []) (h : Clear old v) (r s : List α) :
    replaceAll old new (s ++ (v ++ r)) = replaceAll old new s ++ replaceAll old new (v ++ r) := by
  induction s using match_induction hold with
  | nil => rfl
  | found s ih => rw [List.append_assoc, replaceAll_cons_of_match hold, replaceAll_cons_of_match hold, ih, List.append_assoc]
  | next a s hp ih =>
    have hno : ¬ old <+: a :: (s ++ (v ++ r)) := fun hq => hp (prefix_of_clear h (List.cons_ne_nil a s) hq)
    rw [List.cons_append, replaceAll_cons_of_no_match hno, ih, replaceAll_cons_of_no_match hp]
    rfl

/-! ### The first occurrence -/

/-- The text before the first occurrence. -/
def before (old : List α) : List α → List α
  | [] => []
  | a :: s => if old.isPrefixOf (a :: s) then [] else a :: before old s

/-- Without an occurrence nothing happens. -/
theorem replaceFirst_of_absent : ∀ {s : List α}, ¬ old <:+: s → replaceFirst old new s = s
  | [], _ => rfl
  | a :: s, h => by
    have hp : ¬ old <+: a :: s := fun hp => h hp.isInfix
    rw [replaceFirst, if_neg (mt List.isPrefixOf_iff_prefix.mp hp),
      replaceFirst_of_absent fun hi => h (hi.trans (List.suffix_cons a s).isInfix)]

/-- The first occurrence, and what replaces it. -/
theorem replaceFirst_eq : ∀ {s : List α}, old ≠ [] → old <:+: s →
    ∃ r, s = before old s ++ (old ++ r) ∧ replaceFirst old new s = before old s ++ (new ++ r)
  | [], hold, h => absurd (List.infix_nil.mp h) hold
  | a :: s, hold, h => by
    rw [before, replaceFirst]
    by_cases hp : old <+: a :: s
    · rw [if_pos (List.isPrefixOf_iff_prefix.mpr hp), if_pos (List.isPrefixOf_iff_prefix.mpr hp)]
      obtain ⟨t, ht⟩ := hp
      refine ⟨t, ht.symm, ?_⟩
      rw [← ht, List.drop_left]
      rfl
    · rw [if_neg (mt List.isPrefixOf_iff_prefix.mp hp), if_neg (mt List.isPrefixOf_iff_prefix.mp hp)]
      obtain ⟨r, hs, hr⟩ := replaceFirst_eq hold ((List.infix_cons_iff.mp h).resolve_left hp)
      refine ⟨r, ?_, ?_⟩
      · rw [List.cons_append, ← hs]
      · rw [hr]
        rfl

/-- An occurrence behind a text that has none is the first one. -/
theorem replaceFirst_append (h : Clear old old) (hold : old ≠ []) (r : List α) : ∀ {a : List α}, ¬ old <:+: a →
    replaceFirst old new (a ++ (old ++ r)) = a ++ (new ++ r)
  | [], _ => by
    cases old with
    | nil => exact absurd rfl hold
    | cons b old =>
      have hp : b :: old <+: b :: (old ++ r) := List.prefix_append (b :: old) r
      rw [List.nil_append, List.cons_append, replaceFirst, if_pos (List.isPrefixOf_iff_prefix.mpr hp)]
      exact congrArg (new ++ ·) List.drop_left
  | b :: a, ha => by
    have hno : ¬ old <+: b :: (a ++ (old ++ r)) := fun hp =>
      ha (prefix_of_clear h (List.cons_ne_nil b a) hp).isInfix
    rw [List.cons_append, replaceFirst, if_neg (mt List.isPrefixOf_iff_prefix.mp hno),
      replaceFirst_append h hold r fun hi => ha (hi.trans (List.suffix_cons b a).isInfix)]
    rfl

/-- An occurrence in a text stays the first one when the text goes on. -/
theorem replaceFirst_of_infix (hold : old ≠ []) (r : List α) : ∀ {a : List α}, old <:+: a →
    replaceFirst old new (a ++ r) = replaceFirst old new a ++ r
  | [], h => absurd (List.infix_nil.mp h) hold
  | b :: a, h => by
    rw [List.cons_append, replaceFirst, replaceFirst]
    by_cases hp : old <+: b :: a
    · have hp' : old <+: b :: (a ++ r) := hp.trans (List.prefix_append (b :: a) r)
      rw [if_pos (List.isPrefixOf_iff_prefix.mpr hp), if_pos (List.isPrefixOf_iff_prefix.mpr hp'), ← List.cons_append,
        List.drop_append_of_le_length hp.length_le, List.append_assoc]
    · have hrest : old <:+: a := (List.infix_cons_iff.mp h).resolve_left hp
      have hp' : ¬ old <+: b :: (a ++ r) := fun hq =>
        hp (List.prefix_of_prefix_length_le hq (List.prefix_append (b :: a) r) (hrest.length_le.trans (Nat.le_succ _)))
      rw [if_neg (mt List.isPrefixOf_iff_prefix.mp hp), if_neg (mt List.isPrefixOf_iff_prefix.mp hp'),
        replaceFirst_of_infix hold r hrest]
      rfl

/-- Undone, where what was put there is the first of its kind. -/
theorem replaceFirst_undo (hold : old ≠ []) (hnew : new ≠ []) (h : Clear new new) {s : List α} (hs : old <:+: s)
    (hbefore : ¬ new <:+: before old s) : replaceFirst new old (replaceFirst old new s) = s := by
  obtain ⟨r, hsplit, hr⟩ : ∃ r, s = before old s ++ (old ++ r) ∧ replaceFirst old new s = before old s ++ (new ++ r) :=
    replaceFirst_eq hold hs
  rw [hr, replaceFirst_append h hnew r hbefore]
  exact hsplit.symm

/-- Otherwise another one is replaced, and what was put there stays. -/
theorem replaceFirst_undo_early (hold : old ≠ []) (hnew : new ≠ []) {s : List α} (hs : old <:+: s) (hbefore : new <:+: before old s) :
    ∃ a b c, s = a ++ (new ++ (b ++ (old ++ c))) ∧
      replaceFirst new old (replaceFirst old new s) = a ++ (old ++ (b ++ (new ++ c))) := by
  obtain ⟨c, hsplit, hc⟩ : ∃ c, s = before old s ++ (old ++ c) ∧ replaceFirst old new s = before old s ++ (new ++ c) :=
    replaceFirst_eq hold hs
  obtain ⟨b, hsplit', hb⟩ : ∃ b, before old s = before new (before old s) ++ (new ++ b) ∧
      replaceFirst new old (before old s) = before new (before old s) ++ (old ++ b) := replaceFirst_eq hnew hbefore
  refine ⟨before new (before old s), b, c, ?_, ?_⟩
  · calc s = before old s ++ (old ++ c) := hsplit
      _ = (before new (before old s) ++ (new ++ b)) ++ (old ++ c) := by rw [← hsplit']
      _ = _ := by rw [List.append_assoc, List.append_assoc]
  · rw [hc, replaceFirst_of_infix hnew _ hbefore, hb, List.append_assoc, List.append_assoc]

end Replace
