/-
# Escapes with a backslash

A text in which certain characters are written with a backslash before them,
and its readers: up to one of these characters, where a backslash before any
other stands for itself; or up to the closing quote. What is read back is the
text unless it ends with a backslash. A reader reads what a writer wrote if the
writer escapes no more than the reader knows; the backslashes tell whether it
did.

Key definitions: `escape`, `readText`, `readQuoted`.
Key theorems: `readText_escape`, `count_readText`, `readQuoted_escape`.
-/
import Mathlib.Data.List.Basic
import Mathlib.Data.Nat.Notation

namespace Escapes

/-- The text with a backslash before each special character. -/
def escape (special : Char → Bool) (s : List Char) : List Char :=
  s.flatMap fun c => if special c then ['\\', c] else [c]

/-- The text up to a special character or the end of the line, and the rest. -/
def readText (special : Char → Bool) : List Char → List Char × List Char
  | [] => ([], [])
  | '\\' :: c :: cs =>
    if special c then (c :: (readText special cs).1, (readText special cs).2)
    else ('\\' :: (readText special (c :: cs)).1, (readText special (c :: cs)).2)
  | c :: cs =>
    if special c || c = '\n' then ([], c :: cs) else (c :: (readText special cs).1, (readText special cs).2)

def isQuoted (c : Char) : Bool := c = '"' || c = '\\'

/-- The text up to the closing quote, and the rest. -/
def readQuoted : List Char → Option (List Char × List Char)
  | [] => none
  | '\\' :: c :: cs =>
    if isQuoted c then (readQuoted cs).map fun r => (c :: r.1, r.2)
    else (readQuoted (c :: cs)).map fun r => ('\\' :: r.1, r.2)
  | c :: cs => if c = '"' then some ([], cs) else (readQuoted cs).map fun r => (c :: r.1, r.2)

/-- A separator ends the text, unless a backslash stands before it. -/
example : readText (fun c => c = ',') ['a', '\\', ',', ',', 'b'] = (['a', ','], [',', 'b']) := by simp [readText]

example : readQuoted ['a', '\\', '"', '"', 'b'] = some (['a', '"'], ['b']) := by simp [readQuoted, isQuoted]

section Texts

variable {special known : Char → Bool} {s t rest : List Char} {c : Char}

@[simp] theorem escape_nil : escape special [] = [] := rfl

theorem escape_cons (c : Char) (s : List Char) :
    escape special (c :: s) = (if special c then ['\\', c] else [c]) ++ escape special s := rfl

theorem mem_escape (h : c ∈ s) : c ∈ escape special s := by
  refine List.mem_flatMap.mpr ⟨c, h, ?_⟩
  split_ifs <;> simp

theorem of_mem_escape (h : c ∈ escape special s) : c ∈ s ∨ c = '\\' := by
  obtain ⟨d, hd, hc⟩ := List.mem_flatMap.mp h
  split_ifs at hc
  · rcases List.mem_cons.mp hc with rfl | hc
    · exact .inr rfl
    · exact .inl (List.mem_singleton.mp hc ▸ hd)
  · exact .inl (List.mem_singleton.mp hc ▸ hd)

theorem escape_eq_nil : escape special s = [] ↔ s = [] := by
  refine ⟨fun h => List.eq_nil_iff_forall_not_mem.mpr fun c hc => ?_, fun h => by rw [h, escape_nil]⟩
  exact absurd (mem_escape hc) (h ▸ List.not_mem_nil)

/-- Each special character costs a backslash. -/
theorem count_escape (hbackslash : special '\\' = false) :
    ∀ s, (escape special s).count '\\' = s.countP fun c => c = '\\' || special c
  | [] => rfl
  | c :: s => by
    rw [escape_cons, List.count_append, count_escape hbackslash s, List.countP_cons, Nat.add_comm]
    congr 1
    by_cases hc : special c
    · have hne : c ≠ '\\' := fun h => by rw [h, hbackslash] at hc; cases hc
      simp [hc, hne]
    · simp [hc, List.count_cons, List.count_nil]

/-! ### Reading up to a special character -/

theorem readText_escaped (hc : special c) :
    readText special ('\\' :: c :: s) = (c :: (readText special s).1, (readText special s).2) := by
  rw [readText, if_pos hc]

theorem readText_backslash (hc : special c = false) : readText special ('\\' :: c :: s) =
    ('\\' :: (readText special (c :: s)).1, (readText special (c :: s)).2) := by
  rw [readText, if_neg (by rw [hc]; decide)]

theorem readText_stop (hc : special c ∨ c = '\n') (hne : c ≠ '\\') : readText special (c :: s) = ([], c :: s) := by
  rw [readText.eq_def]
  split
  · next h => cases h
  · next h =>
    cases h
    exact absurd rfl hne
  · next h =>
    cases h
    exact if_pos (by simpa using hc)

theorem readText_char (hc : special c = false) (hline : c ≠ '\n') (hne : c ≠ '\\') :
    readText special (c :: s) = (c :: (readText special s).1, (readText special s).2) := by
  rw [readText.eq_def]
  split
  · next h => cases h
  · next h =>
    cases h
    exact absurd rfl hne
  · next h =>
    cases h
    exact if_neg (by simp [hc, hline])

/-- What is written in front of a separator is read back, if it has nothing that the reader does not know to be escaped
and does not end with a backslash. -/
theorem readText_escape (hbackslash : known '\\' = false) (hsame : ∀ c ∈ s, special c = known c) (hline : '\n' ∉ s)
    (hlast : s.getLast? ≠ some '\\') (hc : known c) :
    readText known (escape special s ++ c :: rest) = (s, c :: rest) := by
  have hne : c ≠ '\\' := fun h => by rw [h, hbackslash] at hc; cases hc
  induction s with
  | nil => exact readText_stop (.inl hc) hne
  | cons d s ih =>
    have htail : readText known (escape special s ++ c :: rest) = (s, c :: rest) := by
      refine ih (fun x hx => hsame x (List.mem_cons_of_mem d hx)) (fun h => hline (List.mem_cons_of_mem d h)) ?_
      cases s with
      | nil => exact nofun
      | cons x s => rwa [List.getLast?_cons_cons] at hlast
    have hd := hsame d List.mem_cons_self
    by_cases hspecial : special d
    · rw [escape_cons, if_pos hspecial]
      show readText known ('\\' :: d :: (escape special s ++ c :: rest)) = _
      rw [readText_escaped (hd ▸ hspecial), htail]
    · rw [escape_cons, if_neg hspecial]
      have hknown : known d = false := by rw [← hd, Bool.eq_false_iff]; exact hspecial
      show readText known (d :: (escape special s ++ c :: rest)) = _
      rcases eq_or_ne d '\\' with rfl | hdne
      · -- the character after a backslash is none that it would escape
        obtain ⟨x, xs, hx, hxknown⟩ : ∃ x xs, escape special s ++ c :: rest = x :: xs ∧ known x = false := by
          cases s with
          | nil => exact absurd rfl hlast
          | cons y s =>
            by_cases hy : special y
            · exact ⟨'\\', _, by rw [escape_cons, if_pos hy]; rfl, hbackslash⟩
            · refine ⟨y, _, by rw [escape_cons, if_neg hy]; rfl, ?_⟩
              rw [← hsame y (List.mem_cons_of_mem _ List.mem_cons_self), Bool.eq_false_iff]
              exact hy
        rw [hx, readText_backslash hxknown, ← hx, htail]
      · rw [readText_char hknown (fun h => hline (h ▸ List.mem_cons_self)) hdne, htail]

theorem readText_suffix (s : List Char) : (readText special s).2 <:+ s := by
  fun_induction readText special s with
  | case1 | case4 => exact List.suffix_rfl
  | case2 c cs hc ih => exact ih.trans ((List.suffix_cons c cs).trans (List.suffix_cons '\\' _))
  | case3 c cs hc ih => exact ih.trans (List.suffix_cons '\\' _)
  | case5 c cs hshape hgo ih => exact ih.trans (List.suffix_cons c cs)

/-- The text read has as many backslashes and special characters as there were backslashes. -/
theorem count_readText (hbackslash : special '\\' = false) : ∀ s, s.count '\\' =
    (readText special s).1.countP (fun c => c = '\\' || special c) + (readText special s).2.count '\\' := by
  intro s
  fun_induction readText special s with
  | case1 => rfl
  | case2 c cs hc ih =>
    have hne : c ≠ '\\' := fun h => by rw [h, hbackslash] at hc; cases hc
    rw [List.count_cons_self, List.count_cons_of_ne hne, List.countP_cons_of_pos (by simp [hc]), ih]
    dsimp only
    omega
  | case3 c cs hc ih =>
    rw [List.count_cons_self, List.countP_cons_of_pos (by simp), ih]
    dsimp only
    omega
  | case4 c cs hshape hstop =>
    simp
  | case5 c cs hshape hgo ih =>
    simp only [Bool.or_eq_true, decide_eq_true_eq, not_or] at hgo
    rcases eq_or_ne c '\\' with rfl | hne
    · rw [List.count_cons_self, List.countP_cons_of_pos (by simp), ih]
      dsimp only
      omega
    · rw [List.count_cons_of_ne hne, List.countP_cons_of_neg (by simp [hne, hgo.1]), ih]

theorem readText_ne_nil (hc : special c = false) (hline : c ≠ '\n') : (readText special (c :: s)).1 ≠ [] := by
  rcases eq_or_ne c '\\' with rfl | hne
  · cases s with
    | nil => simp [readText, hc]
    | cons d s => cases hd : special d <;> simp [readText, hd]
  · rw [readText_char hc hline hne]
    exact List.cons_ne_nil _ _

/-- In front of a separator no text ends with a backslash. -/
theorem getLast_readText (hbackslash : special '\\' = false) (hline : special '\n' = false) (hc : special c)
    (h : (readText special s).2 = c :: rest) : (readText special s).1.getLast? ≠ some '\\' := by
  fun_induction readText special s with
  | case1 => cases h
  | case2 d cs hd ih =>
    have hne : d ≠ '\\' := fun heq => by rw [heq, hbackslash] at hd; cases hd
    rw [List.getLast?_cons]
    cases hlast : (readText special cs).1.getLast? with
    | none => exact fun heq => hne (Option.some.inj heq)
    | some x => exact fun heq => ih h (hlast.trans heq)
  | case3 d cs hd ih =>
    rw [List.getLast?_cons]
    cases hlast : (readText special (d :: cs)).1.getLast? with
    | none =>
      -- nothing is read of a new line, and then no separator follows
      rcases eq_or_ne d '\n' with rfl | hdline
      · rw [readText_stop (.inr rfl) (by decide)] at h
        cases h
        rw [hline] at hc
        cases hc
      · exact absurd (List.getLast?_eq_none_iff.mp hlast) (readText_ne_nil (Bool.eq_false_iff.mpr hd) hdline)
    | some x => exact fun heq => ih h (hlast.trans heq)
  | case4 d cs hshape hstop => exact nofun
  | case5 d cs hshape hgo ih =>
    rcases eq_or_ne d '\\' with rfl | hne
    · cases cs with
      | nil => cases h
      | cons x cs => exact absurd rfl (hshape x cs rfl)
    · rw [List.getLast?_cons]
      cases hlast : (readText special cs).1.getLast? with
      | none => exact fun heq => hne (Option.some.inj heq)
      | some x => exact fun heq => ih h (hlast.trans heq)

/-! ### Reading up to a closing quote -/

theorem readQuoted_char (hc : isQuoted c = false) :
    readQuoted (c :: s) = (readQuoted s).map fun r => (c :: r.1, r.2) := by
  simp only [isQuoted, Bool.or_eq_false_iff, decide_eq_false_iff_not] at hc
  rw [readQuoted.eq_def]
  split
  · next h => cases h
  · next h =>
    cases h
    exact absurd rfl hc.2
  · next h =>
    cases h
    exact if_neg hc.1

theorem readQuoted_escape : ∀ s, readQuoted (escape isQuoted s ++ '"' :: rest) = some (s, rest)
  | [] => rfl
  | c :: s => by
    have ih := readQuoted_escape s
    by_cases hc : isQuoted c
    · rw [escape_cons, if_pos hc]
      show readQuoted ('\\' :: c :: (escape isQuoted s ++ '"' :: rest)) = _
      rw [readQuoted, if_pos hc, ih]
      rfl
    · rw [escape_cons, if_neg hc]
      show readQuoted (c :: (escape isQuoted s ++ '"' :: rest)) = _
      rw [readQuoted_char (Bool.eq_false_iff.mpr hc), ih]
      rfl

theorem readQuoted_suffix {r : List Char × List Char} (h : readQuoted s = some r) : r.2 <:+ s := by
  fun_induction readQuoted s generalizing r with
  | case1 => cases h
  | case2 c cs hc ih =>
    obtain ⟨r, hr, rfl⟩ := Option.map_eq_some_iff.mp h
    exact (ih hr).trans ((List.suffix_cons c cs).trans (List.suffix_cons '\\' _))
  | case3 c cs hc ih =>
    obtain ⟨r, hr, rfl⟩ := Option.map_eq_some_iff.mp h
    exact (ih hr).trans (List.suffix_cons '\\' _)
  | case4 cs =>
    cases h
    exact List.suffix_cons '"' cs
  | case5 c cs hshape hc ih =>
    obtain ⟨r, hr, rfl⟩ := Option.map_eq_some_iff.mp h
    exact (ih hr).trans (List.suffix_cons c cs)

/-- What is read had no more backslashes than it would be written with. -/
theorem count_readQuoted {r : List Char × List Char} (h : readQuoted s = some r) :
    s.count '\\' ≤ (escape isQuoted r.1).count '\\' + r.2.count '\\' := by
  fun_induction readQuoted s generalizing r with
  | case1 => cases h
  | case2 c cs hc ih =>
    obtain ⟨r, hr, rfl⟩ := Option.map_eq_some_iff.mp h
    have hrest := ih hr
    rw [escape_cons, if_pos hc, List.count_append]
    have hfirst : List.count '\\' ['\\', c] = 1 + List.count '\\' [c] := by
      rw [List.count_cons_self]
      omega
    have hhead : List.count '\\' ('\\' :: c :: cs) = 1 + List.count '\\' [c] + List.count '\\' cs := by
      rw [List.count_cons_self, List.count_cons, List.count_singleton]
      omega
    dsimp only
    omega
  | case3 c cs hc ih =>
    obtain ⟨r, hr, rfl⟩ := Option.map_eq_some_iff.mp h
    have hrest := ih hr
    rw [escape_cons, if_pos (by decide), List.count_append, List.count_cons_self]
    have hfirst : List.count '\\' ['\\', '\\'] = 2 := by decide
    dsimp only
    omega
  | case4 cs =>
    cases h
    rw [List.count_cons_of_ne (by decide)]
    exact Nat.le_add_left _ _
  | case5 c cs hshape hc ih =>
    obtain ⟨r, hr, rfl⟩ := Option.map_eq_some_iff.mp h
    have hrest := ih hr
    rw [escape_cons, List.count_append, List.count_cons]
    have hfirst : (if c == '\\' then 1 else 0) ≤ List.count '\\' (if isQuoted c then ['\\', c] else [c]) := by
      split_ifs <;> simp_all [isQuoted]
    dsimp only
    omega

end Texts

end Escapes
