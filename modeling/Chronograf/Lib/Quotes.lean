/-
# Text between quotes

A reader of a text up to the closing quote: a backslash and the character after
it stand for another character, and some characters must not occur. What it
reads of a text that is put between quotes as it is, is that text if and only
if the text has no quote, no backslash and none of these characters.

Key definitions: `scanString`, `Plain`.
Key theorem: `scanString_eq_iff`.
-/
import Mathlib.Data.List.Basic
import Mathlib.Data.Nat.Notation

namespace Quotes

variable (unescape : Char → Option Char) (isBreak : Char → Bool) (q : Char)

/-- The text up to the closing quote, and the rest. -/
def scanString : List Char → Option (List Char × List Char)
  | [] => none
  | c :: cs =>
    if c = q then some ([], cs)
    else if isBreak c then none
    else if c = '\\' then
      match cs with
      | [] => none
      | e :: cs => do
        let d ← unescape e
        let (s, rest) ← scanString cs
        return (d :: s, rest)
    else do
      let (s, rest) ← scanString cs
      return (c :: s, rest)

/-- Text that means itself. -/
def Plain (s : List Char) : Prop := ∀ c ∈ s, c ≠ q ∧ c ≠ '\\' ∧ ¬ isBreak c

instance (s : List Char) : Decidable (Plain isBreak q s) := List.decidableBAll _ s

variable {unescape isBreak q} {c : Char} {s t z rest : List Char}

theorem scanString_quote : scanString unescape isBreak q (q :: t) = some ([], t) := by
  rw [scanString.eq_def]
  exact if_pos rfl

theorem scanString_plain (hq : c ≠ q) (hslash : c ≠ '\\') (hbreak : ¬ isBreak c) :
    scanString unescape isBreak q (c :: t) = (scanString unescape isBreak q t).map fun r => (c :: r.1, r.2) := by
  rw [scanString.eq_def]
  dsimp only
  rw [if_neg hq, if_neg hbreak, if_neg hslash]
  cases scanString unescape isBreak q t <;> rfl

/-- What has been read begins with the quote, an escape or a plain character. -/
theorem scanString_cons (h : scanString unescape isBreak q (c :: t) = some (z, rest)) :
    (c = q ∧ z = [] ∧ rest = t) ∨
    (c = '\\' ∧ ∃ e t' d z', t = e :: t' ∧ unescape e = some d ∧ z = d :: z' ∧
      scanString unescape isBreak q t' = some (z', rest)) ∨
    (c ≠ q ∧ c ≠ '\\' ∧ ¬ isBreak c ∧ ∃ z', z = c :: z' ∧ scanString unescape isBreak q t = some (z', rest)) := by
  by_cases hq : c = q
  · rw [hq, scanString_quote] at h
    cases h
    exact .inl ⟨hq, rfl, rfl⟩
  · rw [scanString.eq_def] at h
    dsimp only at h
    rw [if_neg hq] at h
    split_ifs at h with hbreak hslash
    · cases t with
      | nil => cases h
      | cons e t' =>
        obtain ⟨d, hd, h⟩ := Option.bind_eq_some_iff.mp h
        obtain ⟨⟨z', rest'⟩, hscan, heq⟩ := Option.bind_eq_some_iff.mp h
        cases heq
        exact .inr (.inl ⟨hslash, e, t', d, z', rfl, hd, rfl, hscan⟩)
    · obtain ⟨⟨z', rest'⟩, hscan, heq⟩ := Option.bind_eq_some_iff.mp h
      cases heq
      exact .inr (.inr ⟨hq, hslash, hbreak, z', rfl, hscan⟩)

/-- What is left is shorter, by the closing quote at least. -/
theorem scanString_length {cs : List Char} (h : scanString unescape isBreak q cs = some (z, rest)) :
    rest.length < cs.length := by
  induction hn : cs.length using Nat.strongRecOn generalizing cs z with
  | ind n ih =>
    subst hn
    cases cs with
    | nil =>
      rw [scanString] at h
      cases h
    | cons c t =>
      rw [List.length_cons]
      rcases scanString_cons h with ⟨_, _, rfl⟩ | ⟨_, e, t', d, z', rfl, _, _, hscan⟩ | ⟨_, _, _, z', _, hscan⟩
      · exact Nat.lt_succ_self _
      · have hshort := ih t'.length (by rw [List.length_cons, List.length_cons]; omega) hscan rfl
        rw [List.length_cons]
        omega
      · have hshort := ih t.length (Nat.lt_succ_self _) hscan rfl
        omega

/-- What comes after the closing quote is left. -/
theorem scanString_append (more : List Char) {cs : List Char} (h : scanString unescape isBreak q cs = some (z, rest)) :
    scanString unescape isBreak q (cs ++ more) = some (z, rest ++ more) := by
  fun_induction scanString unescape isBreak q cs generalizing z with
  | case1 => cases h
  | case2 cs =>
    cases h
    exact scanString_quote
  | case3 c cs hq hbreak => cases h
  | case4 => cases h
  | case5 e cs hq hbreak ih =>
    obtain ⟨d, hd, h⟩ := Option.bind_eq_some_iff.mp h
    obtain ⟨⟨z', rest'⟩, hscan, heq⟩ := Option.bind_eq_some_iff.mp h
    cases heq
    rw [List.cons_append, List.cons_append, scanString, if_neg hq, if_neg hbreak, if_pos rfl, hd, Option.bind_eq_bind,
      Option.bind_some, ih hscan]
    rfl
  | case6 c cs hq hbreak hslash ih =>
    obtain ⟨⟨z', rest'⟩, hscan, heq⟩ := Option.bind_eq_some_iff.mp h
    cases heq
    rw [List.cons_append, scanString_plain hq hslash hbreak, ih hscan]
    rfl
/-- Where the text has no quote before `t`, the reader closes at the quote
before `t`, having read no more than the text, or it reads this quote as part
of what it reads, earlier than where it stands. -/
theorem scanString_first (hunescape : ∀ d, unescape q = some d → d = q) (hs : q ∉ s)
    (h : scanString unescape isBreak q (s ++ q :: t) = some (z, rest)) :
    (rest = t ∧ z.length ≤ s.length ∧ (z.length = s.length → Plain isBreak q s)) ∨
    ∃ z₁ z₂, z = z₁ ++ q :: z₂ ∧ z₁.length < s.length := by
  induction hn : s.length using Nat.strongRecOn generalizing s z with
  | ind n ih =>
    subst hn
    cases s with
    | nil =>
      rw [List.nil_append, scanString_quote] at h
      cases h
      exact .inl ⟨rfl, Nat.le_refl _, fun _ => List.forall_mem_nil _⟩
    | cons c s =>
      obtain ⟨hc, hs⟩ := not_or.mp (mt List.mem_cons.mpr hs)
      rcases scanString_cons h with ⟨rfl, _⟩ | ⟨_, e, t', d, z', htext, hd, rfl, hscan⟩ | ⟨_, hslash, hbreak, z', rfl, hscan⟩
      · exact absurd rfl hc
      · cases s with
        | nil =>
          -- the closing quote is escaped
          cases htext
          rw [hunescape d hd]
          exact .inr ⟨[], z', rfl, Nat.succ_pos _⟩
        | cons c' s =>
          obtain ⟨rfl, rfl⟩ := List.cons.inj htext
          rcases ih s.length (by rw [List.length_cons, List.length_cons]; omega)
            (fun hmem => hs (List.mem_cons_of_mem _ hmem)) hscan rfl with ⟨hrest, hle, _⟩ | ⟨z₁, z₂, rfl, hlt⟩
          · refine .inl ⟨hrest, ?_, fun heq => ?_⟩
            · rw [List.length_cons, List.length_cons, List.length_cons]
              omega
            · rw [List.length_cons, List.length_cons, List.length_cons] at heq
              omega
          · refine .inr ⟨d :: z₁, z₂, rfl, ?_⟩
            rw [List.length_cons, List.length_cons, List.length_cons]
            omega
      · rcases ih s.length (Nat.lt_succ_self _) hs hscan rfl with ⟨hrest, hle, hplain⟩ | ⟨z₁, z₂, rfl, hlt⟩
        · refine .inl ⟨hrest, Nat.succ_le_succ hle, fun heq => ?_⟩
          exact List.forall_mem_cons.mpr ⟨⟨Ne.symm hc, hslash, hbreak⟩, hplain (Nat.succ.inj heq)⟩
        · exact .inr ⟨c :: z₁, z₂, rfl, Nat.succ_lt_succ hlt⟩

theorem scanString_of_plain : ∀ {s : List Char}, Plain isBreak q s →
    scanString unescape isBreak q (s ++ q :: t) = some (s, t)
  | [], _ => scanString_quote
  | c :: s, h => by
    obtain ⟨⟨hq, hslash, hbreak⟩, hs⟩ := List.forall_mem_cons.mp h
    rw [List.cons_append, scanString_plain hq hslash hbreak, scanString_of_plain hs]
    rfl

/-- A text between quotes is read back if and only if it means itself. -/
theorem scanString_eq_iff (hunescape : ∀ d, unescape q = some d → d = q) :
    scanString unescape isBreak q (s ++ q :: t) = some (s, rest) ↔ Plain isBreak q s ∧ rest = t := by
  constructor
  · intro h
    by_cases hmem : q ∈ s
    · -- the part of `s` before its first quote decides
      obtain ⟨a, b, hsplit, ha⟩ := List.eq_append_cons_of_mem hmem
      have hread : scanString unescape isBreak q (a ++ q :: (b ++ q :: t)) = some (s, rest) := by
        rw [← List.cons_append, ← List.append_assoc, ← hsplit, h]
      rcases scanString_first hunescape ha hread with ⟨_, hle, _⟩ | ⟨z₁, z₂, hz, hlt⟩
      · rw [hsplit, List.length_append, List.length_cons] at hle
        omega
      · have hquote : (z₁ ++ q :: z₂)[z₁.length]? = some q := by simp
        rw [← hz, hsplit, List.getElem?_append_left hlt] at hquote
        exact absurd (List.mem_of_getElem? hquote) ha
    · rcases scanString_first hunescape hmem h with ⟨hrest, _, hplain⟩ | ⟨z₁, z₂, rfl, _⟩
      · exact ⟨hplain rfl, hrest⟩
      · exact absurd (List.mem_append_right z₁ List.mem_cons_self) hmem
  · rintro ⟨hplain, rfl⟩
    exact scanString_of_plain hplain

end Quotes
