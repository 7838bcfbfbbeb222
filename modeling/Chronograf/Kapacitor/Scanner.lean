/-
# The lexer as a scanner

A token is read again in front of another text, unless it is the last one of
its own text and could go on (`next_append`). Every token takes something from
the front of the text (`next_suffix`).

Key definitions: `ascii`, `lexer`.
Key theorems: `next_append`, `next_suffix`.
-/
import Chronograf.Kapacitor.Lex
import Mathlib

namespace Chronograf
namespace Tick

variable {u : Unicode}

/-! ### Characters -/

theorem isSpace_bounds {c : Char} (h : isSpace c) : c.val.toNat ≤ 32 ∨ 133 ≤ c.val.toNat := by
  simp only [isSpace, Bool.or_eq_true, Bool.and_eq_true, decide_eq_true_eq] at h
  have hrange : '\u2000' ≤ c → 133 ≤ c.val.toNat := fun hc => le_trans (by decide) (UInt32.le_iff_toNat_le.mp hc)
  rcases h with ((((((((((((((rfl | rfl) | rfl) | rfl) | rfl) | rfl) | rfl) | rfl) | rfl) | hc) | rfl) | rfl) | rfl) |
    rfl) | rfl)
  all_goals first | exact .inr (hrange hc.1) | decide

/-- No letters and digits beyond ASCII. -/
def ascii : Unicode where
  letter := Char.isAlpha
  digit := Char.isDigit
  letter_ascii _ _ := rfl
  digit_ascii _ _ := rfl
  letter_not_digit c h := by
    simp only [Char.isAlpha, Char.isUpper, Char.isLower, Char.isDigit, Bool.or_eq_true, Bool.and_eq_true,
      decide_eq_true_eq, Bool.and_eq_false_iff, decide_eq_false_iff_not, ge_iff_le, UInt32.le_iff_toNat_le] at h ⊢
    have hA : 'A'.val.toNat = 65 := rfl
    have ha : 'a'.val.toNat = 97 := rfl
    have h9 : '9'.val.toNat = 57 := rfl
    omega
  space c h := by
    have hbounds := isSpace_bounds h
    simp only [Char.isAlpha, Char.isUpper, Char.isLower, Char.isDigit, Bool.or_eq_false_iff, decide_eq_false_iff_not,
      Bool.and_eq_false_iff, ge_iff_le, UInt32.le_iff_toNat_le]
    have hA : 'A'.val.toNat = 65 := rfl
    have hZ : 'Z'.val.toNat = 90 := rfl
    have ha : 'a'.val.toNat = 97 := rfl
    have hz : 'z'.val.toNat = 122 := rfl
    have h0 : '0'.val.toNat = 48 := rfl
    have h9 : '9'.val.toNat = 57 := rfl
    omega

/-! ### What a token takes -/

/-- What a scan to an end of its own takes, before whatever follows. -/
structure Takes (f : List Char → Option (List Char × List Char)) (cs : List Char) (p : List Char × List Char) : Prop where
  split : p.1 ++ p.2 = cs
  append : ∀ more, f (cs ++ more) = some (p.1, p.2 ++ more)

theorem Takes.cons {f g : List Char → Option (List Char × List Char)} {c : Char} {cs : List Char}
    {p : List Char × List Char} (h : Takes f cs p) (hg : ∀ cs, g (c :: cs) = (f cs).map fun p => (c :: p.1, p.2)) :
    Takes g (c :: cs) (c :: p.1, p.2) where
  split := by rw [List.cons_append, h.split]
  append more := by rw [List.cons_append, hg, h.append, Option.map_some]

theorem quoted_takes {q : Char} : ∀ {cs : List Char} {escaped : Bool} {p : List Char × List Char},
    quoted q escaped cs = some p → Takes (quoted q escaped) cs p
  | [], _, _, h => nomatch h
  | c :: cs, escaped, p, h => by
    by_cases hend : c = q ∧ ¬ escaped
    · rw [quoted, if_pos hend] at h
      obtain rfl := Option.some.inj h
      exact ⟨rfl, fun more => by rw [List.cons_append, quoted, if_pos hend]⟩
    · rw [quoted, if_neg hend] at h
      obtain ⟨p', hp', rfl⟩ := Option.map_eq_some_iff.mp h
      exact (quoted_takes hp').cons fun cs => by rw [quoted, if_neg hend]

theorem triple_takes : ∀ {cs : List Char} {k : ℕ} {escaped : Bool} {p : List Char × List Char},
    triple k escaped cs = some p → Takes (triple k escaped) cs p
  | [], _, _, _, h => nomatch h
  | c :: cs, k, escaped, p, h => by
    rw [triple] at h
    split_ifs at h with hq he hk hb
    · obtain ⟨p', hp', rfl⟩ := Option.map_eq_some_iff.mp h
      exact (triple_takes hp').cons fun cs => by rw [triple, if_pos hq, if_pos he]
    · obtain rfl := Option.some.inj h
      exact ⟨rfl, fun more => by rw [List.cons_append, triple, if_pos hq, if_neg he, if_pos hk]⟩
    · obtain ⟨p', hp', rfl⟩ := Option.map_eq_some_iff.mp h
      exact (triple_takes hp').cons fun cs => by rw [triple, if_pos hq, if_neg he, if_neg hk]
    · obtain ⟨p', hp', rfl⟩ := Option.map_eq_some_iff.mp h
      exact (triple_takes hp').cons fun cs => by rw [triple, if_neg hq, if_pos hb]
    · obtain ⟨p', hp', rfl⟩ := Option.map_eq_some_iff.mp h
      exact (triple_takes hp').cons fun cs => by rw [triple, if_neg hq, if_neg hb]

theorem singleOrTriple_split {cs : List Char} {p : List Char × List Char} (h : singleOrTriple cs = some p) :
    p.1 ++ p.2 = cs := by
  unfold singleOrTriple at h
  split at h
  · obtain ⟨p', hp', rfl⟩ := Option.map_eq_some_iff.mp h
    simp [(triple_takes hp').split]
  · exact (quoted_takes h).split

theorem singleOrTriple_append {cs more : List Char} {p : List Char × List Char} (h : singleOrTriple cs = some p)
    (hend : p.2 = [] → more.head? ≠ some '\'') : singleOrTriple (cs ++ more) = some (p.1, p.2 ++ more) := by
  unfold singleOrTriple at h
  split at h
  · obtain ⟨p', hp', rfl⟩ := Option.map_eq_some_iff.mp h
    rw [List.cons_append, List.cons_append, singleOrTriple, (triple_takes hp').append, Option.map_some]
  · rename_i hcs
    rw [singleOrTriple, (quoted_takes h).append]
    rintro rest hrest
    match cs, hcs, hrest with
    | [], _, _ => cases h
    | [c], _, hrest =>
      obtain ⟨rfl, rfl⟩ := List.cons.inj hrest
      obtain rfl := Option.some.inj h
      exact hend rfl rfl
    | c :: d :: cs, hcs, hrest =>
      obtain ⟨rfl, htail⟩ := List.cons.inj hrest
      obtain ⟨rfl, -⟩ := List.cons.inj htail
      exact hcs cs rfl

theorem comment_split : ∀ (cs : List Char) (b : Bool), (comment b cs).1 ++ (comment b cs).2 = cs
  | [], .false => rfl
  | [], .true => rfl
  | c :: cs, .false => by rw [comment, List.cons_append, comment_split cs]
  | c :: cs, .true => by
    rw [comment]
    split_ifs
    · rw [List.cons_append, comment_split cs]
    · rw [List.cons_append, comment_split cs]
    · rfl

theorem comment_append (more : List Char) : ∀ (cs : List Char) (b : Bool), (comment b cs).2 ≠ [] →
    comment b (cs ++ more) = ((comment b cs).1, (comment b cs).2 ++ more)
  | [], .false, h => absurd rfl h
  | [], .true, h => absurd rfl h
  | c :: cs, .false, h => by
    rw [comment] at h
    rw [List.cons_append, comment, comment_append more cs _ h, comment]
  | c :: cs, .true, h => by
    rw [comment] at h
    rw [List.cons_append, comment, comment]
    split_ifs at h ⊢
    · rw [comment_append more cs _ h]
    · rw [comment_append more cs _ h]
    · rfl

/-- A comment ends with the line, or before it if it has ended with a line already. -/
theorem comment_newlines (more : List Char) : ∀ (cs : List Char) (b : Bool), (comment b cs).2 = [] →
    (comment b (cs ++ '\n' :: '\n' :: more)).2 = '\n' :: more ∨
      (comment b (cs ++ '\n' :: '\n' :: more)).2 = '\n' :: '\n' :: more
  | [], .false, _ => by simp [comment]
  | [], .true, _ => by simp [comment]
  | c :: cs, .false, h => by
    rw [comment] at h
    rw [List.cons_append, comment]
    exact comment_newlines more cs _ h
  | c :: cs, .true, h => by
    rw [comment] at h
    rw [List.cons_append, comment]
    split_ifs at h ⊢
    · exact comment_newlines more cs _ h
    · exact comment_newlines more cs _ h

theorem durUnit_split (c : Char) (cs : List Char) : (durUnit c cs).1 ++ (durUnit c cs).2 = c :: cs := by
  unfold durUnit
  split_ifs with h
  · cases cs with
    | nil => cases h.2
    | cons d cs =>
      obtain rfl := Option.some.inj h.2
      rfl
  · rfl

theorem durUnit_append {c : Char} {cs more : List Char} (hend : (durUnit c cs).2 = [] → more.head? = some '\n') :
    durUnit c (cs ++ more) = ((durUnit c cs).1, (durUnit c cs).2 ++ more) := by
  unfold durUnit at hend ⊢
  cases cs with
  | nil =>
    rw [List.nil_append, hend (by simp)]
    simp
  | cons d cs => by_cases h : c = 'm' ∧ d = 's' <;> simp [h]

theorem numberOrDuration_split : ∀ {cs : List Char} {dec : Bool} {p : TokenType × List Char × List Char},
    numberOrDuration u dec cs = some p → p.2.1 ++ p.2.2 = cs
  | [], _, _, h => by
    obtain rfl := Option.some.inj h
    rfl
  | c :: cs, dec, p, h => by
    rw [numberOrDuration] at h
    split_ifs at h with hdot hdec hdigit hunit
    · obtain ⟨p', hp', rfl⟩ := Option.map_eq_some_iff.mp h
      rw [List.cons_append, numberOrDuration_split hp']
    · obtain ⟨p', hp', rfl⟩ := Option.map_eq_some_iff.mp h
      rw [List.cons_append, numberOrDuration_split hp']
    · obtain rfl := Option.some.inj h
      exact durUnit_split c cs
    · obtain rfl := Option.some.inj h
      rfl

/-- The tables give the characters of the text alike. -/
def Agree (u u' : Unicode) (cs : List Char) : Prop := ∀ c ∈ cs, u.letter c = u'.letter c ∧ u.digit c = u'.digit c

theorem digit_newline (u : Unicode) : u.digit '\n' = .false := (u.digit_ascii '\n' (by decide)).trans (by decide)

theorem letter_newline (u : Unicode) : u.letter '\n' = .false := (u.letter_ascii '\n' (by decide)).trans (by decide)

theorem numberOrDuration_append {u' : Unicode} {more : List Char} : ∀ {cs : List Char} {dec : Bool}
    {p : TokenType × List Char × List Char}, Agree u u' cs → numberOrDuration u dec cs = some p →
      (p.2.2 = [] → more.head? = some '\n') → numberOrDuration u' dec (cs ++ more) = some (p.1, p.2.1, p.2.2 ++ more)
  | [], dec, p, _, h, hend => by
    obtain rfl := Option.some.inj h
    obtain ⟨more, rfl⟩ : ∃ cs, more = '\n' :: cs := by
      cases more <;> simp_all
    rw [List.nil_append, numberOrDuration, if_neg (by decide), digit_newline]
    simp [isDurUnit]
  | c :: cs, dec, p, hag, h, hend => by
    have hc := (hag c List.mem_cons_self).2
    have hcs : Agree u u' cs := fun d hd => hag d (List.mem_cons_of_mem c hd)
    rw [List.cons_append, numberOrDuration, ← hc]
    rw [numberOrDuration] at h
    split_ifs at h ⊢ with hdot hdec hdigit hunit
    · obtain ⟨p', hp', rfl⟩ := Option.map_eq_some_iff.mp h
      rw [numberOrDuration_append hcs hp' hend, Option.map_some]
    · obtain ⟨p', hp', rfl⟩ := Option.map_eq_some_iff.mp h
      rw [numberOrDuration_append hcs hp' hend, Option.map_some]
    · obtain rfl := Option.some.inj h
      rw [durUnit_append hend]
    · obtain rfl := Option.some.inj h
      rfl

theorem Agree.tail {u u' : Unicode} {c : Char} {cs : List Char} (h : Agree u u' (c :: cs)) : Agree u u' cs :=
  fun d hd => h d (List.mem_cons_of_mem c hd)

theorem isValidIdent_newline (u : Unicode) : isValidIdent u '\n' = .false := by
  simp [isValidIdent, digit_newline, letter_newline]

theorem validIdent_span {u' : Unicode} {more : List Char} : ∀ {cs : List Char}, Agree u u' cs →
    (cs.dropWhile (isValidIdent u) = [] → more.head? = some '\n') →
      (cs ++ more).takeWhile (isValidIdent u') = cs.takeWhile (isValidIdent u) ∧
        (cs ++ more).dropWhile (isValidIdent u') = cs.dropWhile (isValidIdent u) ++ more
  | [], _, hend => by
    cases more with
    | nil => cases hend rfl
    | cons d more =>
      obtain rfl := Option.some.inj (hend rfl)
      simp [isValidIdent_newline]
  | c :: cs, hag, hend => by
    have hc : isValidIdent u' c = isValidIdent u c := by
      rw [isValidIdent, isValidIdent, (hag c List.mem_cons_self).1, (hag c List.mem_cons_self).2]
    rw [List.dropWhile_cons] at hend
    rw [List.cons_append, List.takeWhile_cons, List.takeWhile_cons, List.dropWhile_cons, List.dropWhile_cons, hc]
    split_ifs at hend ⊢
    · obtain ⟨htake, hdrop⟩ := validIdent_span hag.tail hend
      rw [htake, hdrop]
      exact ⟨rfl, rfl⟩
    · exact ⟨rfl, rfl⟩

/-- The token is read again before a text of which it takes nothing. -/
def ReadAgain (f f' : List Char → Scan Mode Token) (cs more : List Char) : Prop :=
  ∀ t m rest, f cs = .token t m rest → (rest = [] → more.head? = some '\n') →
    f' (cs ++ more) = .token t m (rest ++ more)

theorem identOrKeyword_append (text rest more : List Char) :
    ReadAgain (identOrKeyword text) (identOrKeyword text) rest more := by
  intro t m rest' h hend
  unfold identOrKeyword at h ⊢
  generalize keywords.lookup (String.ofList text) = keyword at h ⊢
  cases keyword with
  | some typ =>
    obtain ⟨rfl, rfl, rfl⟩ := Scan.token.inj h
    rfl
  | none =>
    simp only at h ⊢
    cases rest with
    | nil =>
      rw [if_neg (by simp)] at h
      obtain ⟨rfl, rfl, rfl⟩ := Scan.token.inj h
      rw [List.nil_append, if_neg (by simp [hend rfl])]
    | cons d rest =>
      by_cases hlambda : text = "lambda".toList ∧ some d = some ':'
      · rw [List.head?_cons, if_pos hlambda] at h
        obtain ⟨rfl, rfl, rfl⟩ := Scan.token.inj h
        rw [List.cons_append, List.head?_cons, if_pos hlambda]
        rfl
      · rw [List.head?_cons, if_neg hlambda] at h
        obtain ⟨rfl, rfl, rfl⟩ := Scan.token.inj h
        rw [List.cons_append, List.head?_cons, if_neg hlambda]

theorem identOrKeyword_rest {text rest rest' : List Char} {t : Token} {m : Mode}
    (h : identOrKeyword text rest = .token t m rest') (hrest : rest = []) : rest' = [] := by
  unfold identOrKeyword at h
  rw [hrest] at h
  split at h
  · exact (Scan.token.inj h).2.2.symm
  · rw [if_neg (by simp)] at h
    exact (Scan.token.inj h).2.2.symm

theorem lexIdentOrKeyword_append {u' : Unicode} {c : Char} {cs more : List Char} (hag : Agree u u' cs) :
    ReadAgain (lexIdentOrKeyword u c) (lexIdentOrKeyword u' c) cs more := by
  intro t m rest h hend
  obtain ⟨htake, hdrop⟩ := validIdent_span hag fun hempty => hend (identOrKeyword_rest h hempty)
  rw [lexIdentOrKeyword, htake, hdrop]
  exact identOrKeyword_append _ _ _ t m rest h hend

theorem lexNumberOrDurationOrDot_append {u' : Unicode} {c : Char} {cs more : List Char} (hag : Agree u u' cs) :
    ReadAgain (lexNumberOrDurationOrDot u c) (lexNumberOrDurationOrDot u' c) cs more := by
  intro t m rest h hend
  unfold lexNumberOrDurationOrDot at h ⊢
  have hpeek : cs = [] → more.head? = some '\n' → (cs ++ more).head?.any u'.digit = cs.head?.any u.digit := by
    intro hcs hmore
    rw [hcs, List.nil_append, hmore]
    exact digit_newline u'
  have hpeek' : cs ≠ [] → (cs ++ more).head?.any u'.digit = cs.head?.any u.digit := by
    intro hcs
    obtain ⟨d, ds, rfl⟩ := List.exists_cons_of_ne_nil hcs
    exact (hag d List.mem_cons_self).2.symm
  split_ifs at h with hdot
  · obtain ⟨rfl, rfl, rfl⟩ := Scan.token.inj h
    have hsame : (cs ++ more).head?.any u'.digit = cs.head?.any u.digit := by
      by_cases hcs : cs = []
      · exact hpeek hcs (hend hcs)
      · exact hpeek' hcs
    rw [if_pos (by rwa [hsame])]
  · cases hnum : numberOrDuration u (c = '.') cs with
    | none => simp only [hnum, reduceCtorEq] at h
    | some p =>
      simp only [hnum] at h
      obtain ⟨rfl, rfl, rfl⟩ := Scan.token.inj h
      have hsame : ¬ (c = '.' ∧ ¬ (cs ++ more).head?.any u'.digit) := by
        rintro ⟨rfl, hnot⟩
        have hcs : cs ≠ [] := by
          rintro rfl
          exact hdot ⟨rfl, by simp⟩
        rw [hpeek' hcs] at hnot
        exact hdot ⟨rfl, hnot⟩
      rw [if_neg hsame, numberOrDuration_append hag hnum hend]

theorem emit_append {typ : TokenType} {opening : List Char} {mode : Mode} {f : List Char → Option (List Char × List Char)}
    {cs more : List Char} (hf : ∀ p, f cs = some p → (p.2 = [] → more.head? = some '\n') →
      f (cs ++ more) = some (p.1, p.2 ++ more)) :
    ReadAgain (fun cs => emit typ opening mode (f cs)) (fun cs => emit typ opening mode (f cs)) cs more := by
  intro t m rest h hend
  cases hp : f cs with
  | none => simp [hp, emit] at h
  | some p =>
    simp only [hp, emit] at h
    obtain ⟨rfl, rfl, rfl⟩ := Scan.token.inj h
    simp only [hf p hp hend, emit]

theorem lexReference_append (cs more : List Char) : ReadAgain lexReference lexReference cs more :=
  emit_append fun _ hp _ => (quoted_takes hp).append more

theorem lexRegex_append (cs more : List Char) : ReadAgain lexRegex lexRegex cs more :=
  emit_append fun _ hp _ => (quoted_takes hp).append more

theorem lexSingleOrTripleString_append (cs more : List Char) :
    ReadAgain lexSingleOrTripleString lexSingleOrTripleString cs more :=
  emit_append fun _ hp hend => singleOrTriple_append hp fun hempty => by rw [hend hempty]; decide

theorem lexOperator_append {c : Char} {two : List (Char × TokenType × Mode)} {typ : TokenType} {mode : Mode}
    {cs more : List Char} (hnewline : two.lookup '\n' = none) :
    ReadAgain (lexOperator c two typ mode) (lexOperator c two typ mode) cs more := by
  intro t m rest h hend
  cases cs with
  | nil =>
    obtain ⟨rfl, rfl, rfl⟩ := Scan.token.inj h
    obtain ⟨more, rfl⟩ : ∃ cs, more = '\n' :: cs := by
      cases more <;> simp_all
    rw [List.nil_append, lexOperator, hnewline]
  | cons d cs =>
    rw [lexOperator] at h
    rw [List.cons_append, lexOperator]
    cases htwo : two.lookup d with
    | some p =>
      simp only [htwo] at h ⊢
      obtain ⟨rfl, rfl, rfl⟩ := Scan.token.inj h
      rfl
    | none =>
      simp only [htwo] at h ⊢
      obtain ⟨rfl, rfl, rfl⟩ := Scan.token.inj h
      rfl

theorem lexComment_append {cs more : List Char} {t : Token} {m : Mode} {rest : List Char}
    (h : lexComment cs = .token t m rest) (hend : rest ≠ []) : lexComment (cs ++ more) = .token t m (rest ++ more) := by
  obtain ⟨rfl, rfl, rfl⟩ := Scan.token.inj h
  rw [lexComment, comment_append more cs .false hend]
  rfl

theorem lexComment_typ {cs : List Char} {t : Token} {m : Mode} {rest : List Char} (h : lexComment cs = .token t m rest) :
    t.typ = .comment := by
  obtain ⟨rfl, -, -⟩ := Scan.token.inj h
  rfl

theorem lexPunctuation_append {c : Char} {cs more : List Char} {t : Token} {m : Mode} {rest : List Char}
    (h : lexPunctuation c cs = .token t m rest) (hend : rest = [] → more.head? = some '\n' ∧ t.typ ≠ .comment) :
    lexPunctuation c (cs ++ more) = .token t m (rest ++ more) := by
  unfold lexPunctuation at h ⊢
  cases hp : punctuation c with
  | some p =>
    simp only [hp] at h ⊢
    obtain ⟨rfl, rfl, rfl⟩ := Scan.token.inj h
    rfl
  | none =>
    simp only [hp] at h ⊢
    by_cases hslash : c = '/'
    · rw [if_neg (not_not.mpr hslash)] at h ⊢
      cases cs with
      | nil => cases h
      | cons d cs =>
        rw [List.cons_append, List.head?_cons]
        rw [List.head?_cons] at h
        by_cases hcomment : some d = some '/'
        · rw [if_pos hcomment] at h ⊢
          exact lexComment_append h fun hrest => (hend hrest).2 (lexComment_typ h)
        · rw [if_neg hcomment] at h ⊢
          exact lexRegex_append _ more t m rest h fun hrest => (hend hrest).1
    · rw [if_pos hslash] at h
      cases h

/-- A token is read again; a comment if it ends before the text does. -/
theorem lexToken_append {u' : Unicode} {more : List Char} : ∀ {cs : List Char}, Agree u u' cs →
    ∀ {t m rest}, lexToken u cs = .token t m rest → (rest = [] → more.head? = some '\n' ∧ t.typ ≠ .comment) →
      lexToken u' (cs ++ more) = .token t m (rest ++ more)
  | [], _, t, m, rest, h, _ => nomatch h
  | c :: cs, hag, t, m, rest, h, hend => by
    have hmore := fun hrest => (hend hrest).1
    rw [List.cons_append, lexToken, ← (hag c List.mem_cons_self).1, ← (hag c List.mem_cons_self).2]
    rw [lexToken] at h
    by_cases hminus : c = '-'
    · rw [if_pos hminus] at h ⊢
      obtain ⟨rfl, rfl, rfl⟩ := Scan.token.inj h
      rfl
    rw [if_neg hminus] at h ⊢
    by_cases hnot : c = '!'
    · rw [if_pos hnot] at h ⊢
      obtain ⟨rfl, rfl, rfl⟩ := Scan.token.inj h
      rfl
    rw [if_neg hnot] at h ⊢
    by_cases hnumber : (u.digit c || c = '.') = .true
    · rw [if_pos hnumber] at h ⊢
      exact lexNumberOrDurationOrDot_append hag.tail t m rest h hmore
    rw [if_neg hnumber] at h ⊢
    by_cases hletter : u.letter c = .true
    · rw [if_pos hletter] at h ⊢
      exact lexIdentOrKeyword_append hag.tail t m rest h hmore
    rw [if_neg hletter] at h ⊢
    by_cases href : c = '"'
    · rw [if_pos href] at h ⊢
      exact lexReference_append cs more t m rest h hmore
    rw [if_neg href] at h ⊢
    by_cases hstring : c = '\''
    · rw [if_pos hstring] at h ⊢
      exact lexSingleOrTripleString_append cs more t m rest h hmore
    rw [if_neg hstring] at h ⊢
    by_cases hspace : isSpace c = .true
    · rw [if_pos hspace] at h ⊢
      exact lexToken_append hag.tail h hend
    rw [if_neg hspace] at h ⊢
    exact lexPunctuation_append h hend

theorem operator_newline {c : Char} {two : List (Char × TokenType × Mode)} {p : TokenType × Mode}
    (h : operator c = some (two, p)) : two.lookup '\n' = none := by
  unfold operator at h
  split at h <;> simp only [Option.some.injEq, Prod.mk.injEq, reduceCtorEq] at h <;> rw [← h.1] <;> rfl

theorem tryLexBinaryOperator_append {u' : Unicode} {more : List Char} : ∀ {cs : List Char}, Agree u u' cs →
    ∀ {t m rest}, tryLexBinaryOperator u cs = .token t m rest →
      (rest = [] → more.head? = some '\n' ∧ t.typ ≠ .comment) →
        tryLexBinaryOperator u' (cs ++ more) = .token t m (rest ++ more)
  | [], _, t, m, rest, h, _ => nomatch h
  | c :: cs, hag, t, m, rest, h, hend => by
    rw [List.cons_append, tryLexBinaryOperator]
    rw [tryLexBinaryOperator] at h
    by_cases hspace : isSpace c = .true
    · rw [if_pos hspace] at h ⊢
      exact tryLexBinaryOperator_append hag.tail h hend
    rw [if_neg hspace] at h ⊢
    by_cases hcomment : c = '/' ∧ cs.head? = some '/'
    · rw [if_pos hcomment] at h
      rw [if_pos ⟨hcomment.1, by rw [List.head?_append, hcomment.2]; rfl⟩]
      exact lexComment_append h fun hrest => (hend hrest).2 (lexComment_typ h)
    rw [if_neg hcomment] at h
    cases hop : operator c with
    | some p =>
      obtain ⟨two, typ, mode⟩ := p
      simp only [hop] at h ⊢
      have hnewline := operator_newline hop
      have hslash : ¬ (c = '/' ∧ (cs ++ more).head? = some '/') := by
        rintro ⟨rfl, hhead⟩
        cases cs with
        | nil =>
          obtain ⟨rfl, rfl, rfl⟩ := Option.some.inj hop
          obtain ⟨rfl, rfl, rfl⟩ := Scan.token.inj h
          rw [List.nil_append, (hend rfl).1] at hhead
          exact absurd hhead (by decide)
        | cons d cs => exact hcomment ⟨rfl, hhead⟩
      rw [if_neg hslash]
      exact lexOperator_append hnewline t m rest h fun hrest => (hend hrest).1
    | none =>
      simp only [hop] at h ⊢
      have hslash : c ≠ '/' := by
        rintro rfl
        cases hop
      rw [if_neg fun hc => hslash hc.1]
      exact lexToken_append hag h hend

theorem lexRegexOrToken_append {u' : Unicode} {more : List Char} : ∀ {cs : List Char}, Agree u u' cs →
    ∀ {t m rest}, lexRegexOrToken u cs = .token t m rest → (rest = [] → more.head? = some '\n' ∧ t.typ ≠ .comment) →
        lexRegexOrToken u' (cs ++ more) = .token t m (rest ++ more)
  | [], _, t, m, rest, h, _ => nomatch h
  | c :: cs, hag, t, m, rest, h, hend => by
    rw [List.cons_append, lexRegexOrToken]
    rw [lexRegexOrToken] at h
    by_cases hspace : isSpace c = .true
    · rw [if_pos hspace] at h ⊢
      exact lexRegexOrToken_append hag.tail h hend
    rw [if_neg hspace] at h ⊢
    by_cases hslash : c = '/'
    · rw [if_pos hslash] at h ⊢
      exact lexRegex_append cs more t m rest h fun hrest => (hend hrest).1
    · rw [if_neg hslash] at h ⊢
      exact lexToken_append hag h hend

/-- A token is read again before another text; a comment if it ends before its own text does. -/
theorem next_append {u' : Unicode} {cs more : List Char} {t : Token} {m m' : Mode} {rest : List Char}
    (hag : Agree u u' cs) (h : next u m cs = .token t m' rest)
    (hend : rest = [] → more.head? = some '\n' ∧ t.typ ≠ .comment) :
    next u' m (cs ++ more) = .token t m' (rest ++ more) := by
  cases m with
  | token => exact lexToken_append hag h hend
  | binaryOperator => exact tryLexBinaryOperator_append hag h hend
  | regexOrToken => exact lexRegexOrToken_append hag h hend

/-! ### The lexer as a scanner -/

theorem emit_suffix {typ : TokenType} {opening : List Char} {mode : Mode} {r : Option (List Char × List Char)}
    {cs : List Char} (hr : ∀ p, r = some p → p.1 ++ p.2 = cs) {t : Token} {m : Mode} {rest : List Char}
    (h : emit typ opening mode r = .token t m rest) : rest <:+ cs := by
  cases r with
  | none => cases h
  | some p =>
    obtain ⟨rfl, rfl, rfl⟩ := Scan.token.inj h
    exact ⟨p.1, hr p rfl⟩

theorem lexPunctuation_suffix {c : Char} {cs : List Char} {t : Token} {m : Mode} {rest : List Char}
    (h : lexPunctuation c cs = .token t m rest) : rest <:+ cs := by
  unfold lexPunctuation at h
  split at h
  · obtain ⟨rfl, rfl, rfl⟩ := Scan.token.inj h
    exact List.suffix_rfl
  · split_ifs at h
    · exact emit_suffix (fun p hp => Option.some.inj hp ▸ comment_split cs .false) h
    · exact emit_suffix (fun p hp => (quoted_takes hp).split) h

theorem identOrKeyword_suffix {text rest rest' : List Char} {t : Token} {m : Mode}
    (h : identOrKeyword text rest = .token t m rest') : rest' <:+ rest := by
  unfold identOrKeyword at h
  split at h
  · obtain ⟨rfl, rfl, rfl⟩ := Scan.token.inj h
    exact List.suffix_rfl
  · by_cases hlambda : text = "lambda".toList ∧ rest.head? = some ':'
    · rw [if_pos hlambda] at h
      obtain ⟨rfl, rfl, rfl⟩ := Scan.token.inj h
      exact List.tail_suffix rest
    · rw [if_neg hlambda] at h
      obtain ⟨rfl, rfl, rfl⟩ := Scan.token.inj h
      exact List.suffix_rfl

theorem lexNumberOrDurationOrDot_suffix {c : Char} {cs : List Char} {t : Token} {m : Mode} {rest : List Char}
    (h : lexNumberOrDurationOrDot u c cs = .token t m rest) : rest <:+ cs := by
  unfold lexNumberOrDurationOrDot at h
  split_ifs at h
  · obtain ⟨rfl, rfl, rfl⟩ := Scan.token.inj h
    exact List.suffix_rfl
  · cases hnum : numberOrDuration u (c = '.') cs with
    | none => simp only [hnum, reduceCtorEq] at h
    | some p =>
      simp only [hnum] at h
      obtain ⟨rfl, rfl, rfl⟩ := Scan.token.inj h
      exact ⟨p.2.1, numberOrDuration_split hnum⟩

theorem lexToken_suffix : ∀ {c : Char} {cs : List Char} {t : Token} {m : Mode} {rest : List Char},
    lexToken u (c :: cs) = .token t m rest → rest <:+ cs
  | c, cs, t, m, rest, h => by
    rw [lexToken] at h
    split_ifs at h
    · obtain ⟨rfl, rfl, rfl⟩ := Scan.token.inj h
      exact List.suffix_rfl
    · obtain ⟨rfl, rfl, rfl⟩ := Scan.token.inj h
      exact List.suffix_rfl
    · exact lexNumberOrDurationOrDot_suffix h
    · exact (identOrKeyword_suffix h).trans (List.dropWhile_suffix _)
    · exact emit_suffix (fun p hp => (quoted_takes hp).split) h
    · exact emit_suffix (fun p hp => singleOrTriple_split hp) h
    · cases cs with
      | nil => cases h
      | cons d cs => exact (lexToken_suffix h).trans (List.suffix_cons d cs)
    · exact lexPunctuation_suffix h

theorem lexOperator_suffix {c : Char} {two : List (Char × TokenType × Mode)} {typ : TokenType} {mode : Mode}
    {cs : List Char} {t : Token} {m : Mode} {rest : List Char} (h : lexOperator c two typ mode cs = .token t m rest) :
    rest <:+ cs := by
  cases cs with
  | nil =>
    obtain ⟨rfl, rfl, rfl⟩ := Scan.token.inj h
    exact List.suffix_rfl
  | cons d cs =>
    rw [lexOperator] at h
    split at h
    · obtain ⟨rfl, rfl, rfl⟩ := Scan.token.inj h
      exact List.suffix_cons d cs
    · obtain ⟨rfl, rfl, rfl⟩ := Scan.token.inj h
      exact List.suffix_rfl

theorem tryLexBinaryOperator_suffix : ∀ {c : Char} {cs : List Char} {t : Token} {m : Mode} {rest : List Char},
    tryLexBinaryOperator u (c :: cs) = .token t m rest → rest <:+ cs
  | c, cs, t, m, rest, h => by
    rw [tryLexBinaryOperator] at h
    split_ifs at h
    · cases cs with
      | nil => cases h
      | cons d cs => exact (tryLexBinaryOperator_suffix h).trans (List.suffix_cons d cs)
    · exact emit_suffix (fun p hp => Option.some.inj hp ▸ comment_split cs .false) h
    · split at h
      · exact lexOperator_suffix h
      · exact lexToken_suffix h

theorem lexRegexOrToken_suffix : ∀ {c : Char} {cs : List Char} {t : Token} {m : Mode} {rest : List Char},
    lexRegexOrToken u (c :: cs) = .token t m rest → rest <:+ cs
  | c, cs, t, m, rest, h => by
    rw [lexRegexOrToken] at h
    split_ifs at h
    · cases cs with
      | nil => cases h
      | cons d cs => exact (lexRegexOrToken_suffix h).trans (List.suffix_cons d cs)
    · exact emit_suffix (fun p hp => (quoted_takes hp).split) h
    · exact lexToken_suffix h

theorem next_suffix {m m' : Mode} {cs rest : List Char} {t : Token} (h : next u m cs = .token t m' rest) :
    rest <:+ cs ∧ rest.length < cs.length := by
  cases cs with
  | nil => cases m <;> cases h
  | cons c cs =>
    have hsuffix : rest <:+ cs := by
      cases m with
      | token => exact lexToken_suffix h
      | binaryOperator => exact tryLexBinaryOperator_suffix h
      | regexOrToken => exact lexRegexOrToken_suffix h
    exact ⟨hsuffix.trans (List.suffix_cons c cs), Nat.lt_succ_of_le hsuffix.length_le⟩

variable (u) in
def lexer : Scanner Mode Token where
  next := next u
  takes := next_suffix

end Tick
end Chronograf
