/-
# What the lexer reads

Spaces are skipped in every mode, so a fixed text has the same tokens wherever
it stands (`fills_text`), and so has a text that is read without an error to
its end, if two lines end after it (`lexemes_closed`). A number, a duration
or an identifier has a text of its kind (`next_origin`).

Key definitions: `lexemes`, `textTokens`, `isNumber`, `isDuration`, `isIdent`.
Key theorems: `fills_text`, `next_origin`, `lexemes_closed`.
-/
import Chronograf.Kapacitor.Scanner
import Mathlib.Tactic.ByContra

namespace Chronograf
namespace Tick

variable {u : Unicode}

variable (u) in
/-- The tokens of a text with the values of their literals. -/
def lexemes (m : Mode) (cs : List Char) : List Token := ((lexer u).tokens m cs).map Token.evaluate

theorem lexemes_of_token {m m' : Mode} {cs rest : List Char} {t : Token} (h : next u m cs = .token t m' rest) :
    lexemes u m cs = t.evaluate :: lexemes u m' rest := by
  rw [lexemes, Scanner.tokens_of_token h, List.map_cons, ← lexemes]

theorem lexemes_of_stop {m : Mode} {cs : List Char} {t : Token} (h : next u m cs = .stop t) :
    lexemes u m cs = [t.evaluate] := by
  rw [lexemes, Scanner.tokens_of_stop h, List.map_singleton]

theorem lexemes_congr {m m' : Mode} {cs cs' : List Char} (h : next u m cs = next u m' cs') :
    lexemes u m cs = lexemes u m' cs' := by
  rw [lexemes, Scanner.tokens_congr (S := lexer u) h, ← lexemes]

/-! ### Spaces -/

theorem next_space {c : Char} (hc : isSpace c) (m : Mode) (cs : List Char) : next u m (c :: cs) = next u m cs := by
  cases m with
  | token =>
    have hne : ∀ d, isSpace d = .false → c ≠ d := by
      rintro d hd rfl
      rw [hc] at hd
      cases hd
    rw [next, lexToken, if_neg (hne '-' (by decide)), if_neg (hne '!' (by decide)), (u.space c hc).1, (u.space c hc).2,
      if_neg (by simp [hne '.' (by decide)]), if_neg (by simp), if_neg (hne '"' (by decide)),
      if_neg (hne '\'' (by decide)), if_pos hc]
  | binaryOperator => rw [next, tryLexBinaryOperator, if_pos hc]
  | regexOrToken => rw [next, lexRegexOrToken, if_pos hc]

theorem next_blank {blank : List Char} (h : blank.all isSpace) (m : Mode) (cs : List Char) :
    next u m (blank ++ cs) = next u m cs := by
  induction blank with
  | nil => rfl
  | cons c blank ih =>
    rw [List.all_cons, Bool.and_eq_true] at h
    rw [List.cons_append, next_space h.1, ih h.2]

/-- After spaces a letter is read alike in every mode. -/
theorem lexemes_letter {blank : List Char} (h : blank.all isSpace) {c : Char} (hc : u.letter c) (hspace : isSpace c = .false)
    (hop : operator c = none) (m : Mode) (cs : List Char) :
    lexemes u m (blank ++ c :: cs) = lexemes u .token (blank ++ c :: cs) := by
  apply lexemes_congr
  rw [next_blank h, next_blank h]
  have hslash : c ≠ '/' := by
    rintro rfl
    cases hop
  cases m with
  | token => rfl
  | binaryOperator =>
    show tryLexBinaryOperator u (c :: cs) = lexToken u (c :: cs)
    rw [tryLexBinaryOperator, if_neg (by simp [hspace]), if_neg (by simp [hslash])]
    simp only [hop]
  | regexOrToken =>
    show lexRegexOrToken u (c :: cs) = lexToken u (c :: cs)
    rw [lexRegexOrToken, if_neg (by simp [hspace]), if_neg hslash]

/-! ### Fixed texts -/

def isAscii (c : Char) : Bool := c.val < 128

/-- The tokens of an ASCII text with spaces at its end, and the mode then. -/
def fixedTokens (m : Mode) (text : List Char) : Option (List Token × Mode) :=
  if text.all isAscii then (lexer ascii).fixed isSpace (text.length + 1) m text else none

theorem agree_ascii {cs : List Char} (h : cs.all isAscii) : Agree ascii u cs := by
  intro c hc
  have hc' : c.val < 128 := of_decide_eq_true (List.all_eq_true.mp h c hc)
  exact ⟨(u.letter_ascii c hc').symm, (u.digit_ascii c hc').symm⟩

/-- A fixed text is read alike before every other text. -/
theorem tokens_fixed {m m' : Mode} {text : List Char} {ts : List Token} (h : fixedTokens m text = some (ts, m'))
    (more : List Char) : (lexer u).tokens m (text ++ more) = ts ++ (lexer u).tokens m' more := by
  unfold fixedTokens at h
  split_ifs at h with hascii
  refine Scanner.tokens_fixed (fun rest hblank => Scanner.tokens_congr (next_blank hblank _ rest)) ?_ more hascii h
  exact fun more hplain hnext hne => next_append (agree_ascii hplain) hnext fun hrest => absurd hrest hne

/-- What a fixed text contributes to the tokens. -/
def textTokens (m : Mode) (text : String) : List Token :=
  (((fixedTokens m text.toList).map (·.1)).getD []).map Token.evaluate

theorem fills_text {m m' : Mode} {text : String} (h : (fixedTokens m text.toList).map (·.2) = some m') (rest : List Char) :
    Fills (lexemes u) m text.toList rest (textTokens m text) m' True := by
  obtain ⟨⟨ts, m''⟩, hfixed, rfl⟩ := Option.map_eq_some_iff.mp h
  apply Fills.fixed
  rw [lexemes, tokens_fixed hfixed, List.map_append, textTokens, hfixed]
  rfl

/-! ### Where a token comes from -/

/-- Digits with at most one point, none if there has been one. -/
def numberTail (u : Unicode) : Bool → List Char → Bool
  | _, [] => true
  | foundDecimal, c :: cs => if c = '.' then !foundDecimal && numberTail u true cs else u.digit c && numberTail u foundDecimal cs

/-- The text of a number. -/
def isNumber (u : Unicode) : List Char → Bool
  | [] => false
  | c :: cs => if c = '.' then cs.head?.any u.digit && numberTail u true cs else u.digit c && numberTail u false cs

def durationUnits : List (List Char) := [['u'], ['µ'], ['s'], ['m', 's'], ['m'], ['h'], ['d'], ['w']]

local instance lawfulBEqUnit : LawfulBEq (List Char) := inferInstance

/-- The text of a duration: digits and a unit. -/
def isDuration (u : Unicode) (cs : List Char) : Bool := cs.head?.any u.digit && cs.dropWhile u.digit ∈ durationUnits

/-- The text of an identifier. -/
def isIdent (u : Unicode) (cs : List Char) : Bool :=
  cs.head?.any u.letter && cs.all (isValidIdent u) && (keywords.lookup (String.ofList cs)).isNone

/-- A token that is not a comment has a text of its kind. -/
structure Token.Formed (u : Unicode) (t : Token) : Prop where
  number : t.typ = .number → isNumber u t.val
  duration : t.typ = .duration → isDuration u t.val
  ident : t.typ = .ident → isIdent u t.val
  comment : t.typ ≠ .comment

theorem Token.Formed.of_typ {t : Token} (h : t.typ ∉ [TokenType.number, .duration, .ident, .comment]) : t.Formed u where
  number ht := absurd (ht ▸ h) (by decide)
  duration ht := absurd (ht ▸ h) (by decide)
  ident ht := absurd (ht ▸ h) (by decide)
  comment ht := absurd (ht ▸ h) (by decide)

theorem Token.Formed.other {typ : TokenType} {val : List Char}
    (h : typ ∉ [TokenType.number, .duration, .ident, .comment]) : Token.Formed u ⟨typ, val⟩ := .of_typ h

/-- The token has a text of its kind, or it is a comment that begins after spaces. -/
def Origin (u : Unicode) (cs : List Char) (t : Token) (rest : List Char) : Prop :=
  t.Formed u ∨ ∃ blank ds, blank.all isSpace ∧ cs = blank ++ '/' :: ds ∧ ds.head? = some '/' ∧
    lexComment ds = .token t .token rest

theorem Origin.space {c : Char} {cs rest : List Char} {t : Token} (hc : isSpace c) (h : Origin u cs t rest) :
    Origin u (c :: cs) t rest := by
  obtain hformed | ⟨blank, ds, hblank, rfl, hcomment⟩ := h
  · exact .inl hformed
  · exact .inr ⟨c :: blank, ds, by rw [List.all_cons, hc, hblank]; rfl, rfl, hcomment⟩

theorem Origin.comment {cs rest : List Char} {t : Token} {m : Mode} (hhead : cs.head? = some '/')
    (h : lexComment cs = .token t m rest) : Origin u ('/' :: cs) t rest := by
  obtain ⟨rfl, rfl, rfl⟩ := Scan.token.inj h
  exact .inr ⟨[], cs, rfl, rfl, hhead, rfl⟩

theorem emit_typ {typ : TokenType} {opening : List Char} {mode : Mode} {r : Option (List Char × List Char)} {t : Token}
    {m : Mode} {rest : List Char} (h : emit typ opening mode r = .token t m rest) : t.typ = typ := by
  cases r with
  | none => cases h
  | some p =>
    obtain ⟨rfl, -, -⟩ := Scan.token.inj h
    rfl

theorem durUnit_mem {c : Char} (hc : isDurUnit c) (cs : List Char) : (durUnit c cs).1 ∈ durationUnits := by
  unfold durUnit
  split_ifs with h
  · obtain ⟨rfl, -⟩ := h
    exact (by decide : ['m', 's'] ∈ durationUnits)
  · have hall : ∀ d ∈ ['u', 'µ', 's', 'm', 'h', 'd', 'w'], [d] ∈ durationUnits := by simp [durationUnits]
    exact hall c (of_decide_eq_true hc)

theorem numberOrDuration_formed : ∀ {cs : List Char} {dec : Bool} {p : TokenType × List Char × List Char},
    numberOrDuration u dec cs = some p → p.1 = .number ∧ numberTail u dec p.2.1 ∨
      p.1 = .duration ∧ dec = false ∧ p.2.1.dropWhile u.digit ∈ durationUnits
  | [], _, _, h => by
    obtain rfl := Option.some.inj h
    exact .inl ⟨rfl, rfl⟩
  | c :: cs, dec, p, h => by
    rw [numberOrDuration] at h
    split_ifs at h with hdot hdec hdigit hunit
    · obtain ⟨p', hp', rfl⟩ := Option.map_eq_some_iff.mp h
      obtain ⟨htyp, htail⟩ | ⟨-, hfalse, -⟩ := numberOrDuration_formed hp'
      · exact .inl ⟨htyp, by simp [numberTail, hdot, hdec, htail]⟩
      · cases hfalse
    · obtain ⟨p', hp', rfl⟩ := Option.map_eq_some_iff.mp h
      obtain ⟨htyp, htail⟩ | ⟨htyp, hfalse, hunit⟩ := numberOrDuration_formed hp'
      · exact .inl ⟨htyp, by simp [numberTail, hdot, hdigit, htail]⟩
      · exact .inr ⟨htyp, hfalse, by simpa [hdigit] using hunit⟩
    · obtain rfl := Option.some.inj h
      rw [Bool.and_eq_true, Bool.not_eq_true'] at hunit
      refine .inr ⟨rfl, hunit.1, ?_⟩
      have hhead : (durUnit c cs).1.dropWhile u.digit = (durUnit c cs).1 := by
        unfold durUnit
        split_ifs <;> simp [hdigit]
      rw [hhead]
      exact durUnit_mem hunit.2 cs
    · obtain rfl := Option.some.inj h
      exact .inl ⟨rfl, rfl⟩

theorem digit_dot (u : Unicode) : u.digit '.' = false := (u.digit_ascii '.' (by decide)).trans (by decide)

theorem numberOrDuration_head {d : Char} {cs : List Char} {dec : Bool} {p : TokenType × List Char × List Char}
    (hd : u.digit d) (h : numberOrDuration u dec (d :: cs) = some p) : p.2.1.head? = some d := by
  have hdot : d ≠ '.' := by
    rintro rfl
    rw [digit_dot] at hd
    cases hd
  rw [numberOrDuration, if_neg hdot, if_pos hd] at h
  obtain ⟨p', -, rfl⟩ := Option.map_eq_some_iff.mp h
  rfl

theorem number_formed {c : Char} {cs : List Char} {t : Token} {m : Mode} {rest : List Char} (hc : u.digit c ∨ c = '.')
    (h : lexNumberOrDurationOrDot u c cs = .token t m rest) : t.Formed u := by
  unfold lexNumberOrDurationOrDot at h
  split_ifs at h with hdot
  · obtain ⟨rfl, -, -⟩ := Scan.token.inj h
    exact .other (by decide)
  · cases hnum : numberOrDuration u (c = '.') cs with
    | none => simp only [hnum, reduceCtorEq] at h
    | some p =>
      obtain ⟨typ, text, rest'⟩ := p
      simp only [hnum] at h
      obtain ⟨rfl, -, -⟩ := Scan.token.inj h
      obtain ⟨rfl, htail⟩ | ⟨rfl, hdec, hunit⟩ := numberOrDuration_formed hnum
      · refine ⟨fun _ => ?_, nofun, nofun, nofun⟩
        by_cases hd : c = '.'
        · have hpeek : text.head?.any u.digit := by
            cases cs with
            | nil => exact absurd ⟨hd, by simp⟩ hdot
            | cons d cs =>
              have hdigit : u.digit d := by
                by_contra hnot
                exact hdot ⟨hd, hnot⟩
              rw [numberOrDuration_head hdigit hnum]
              exact hdigit
          rw [decide_eq_true hd] at htail
          simp [isNumber, hd, hpeek, htail]
        · rw [decide_eq_false hd] at htail
          simp [isNumber, hd, hc.resolve_right hd, htail]
      · refine ⟨nofun, fun _ => ?_, nofun, nofun⟩
        have hdigit : u.digit c := hc.resolve_right (of_decide_eq_false hdec)
        rw [isDuration, List.head?_cons, List.dropWhile_cons, if_pos hdigit]
        simp [hdigit, hunit]

theorem identOrKeyword_formed {text rest rest' : List Char} {t : Token} {m : Mode}
    (htext : text.head?.any u.letter && text.all (isValidIdent u)) (h : identOrKeyword text rest = .token t m rest') :
    t.Formed u := by
  unfold identOrKeyword at h
  cases hkeyword : keywords.lookup (String.ofList text) with
  | some typ =>
    simp only [hkeyword] at h
    obtain ⟨rfl, -, -⟩ := Scan.token.inj h
    obtain ⟨l₁, l₂, hmem, -⟩ := List.lookup_eq_some_iff.mp hkeyword
    have hall : ∀ p ∈ keywords, p.2 ∉ [TokenType.number, .duration, .ident, .comment] := by decide
    exact .of_typ (hall (String.ofList text, typ) (by simp [hmem]))
  | none =>
    simp only [hkeyword] at h
    by_cases hlambda : text = "lambda".toList ∧ rest.head? = some ':'
    · rw [if_pos hlambda] at h
      obtain ⟨rfl, -, -⟩ := Scan.token.inj h
      exact .other (by decide)
    · rw [if_neg hlambda] at h
      obtain ⟨rfl, -, -⟩ := Scan.token.inj h
      exact ⟨nofun, nofun, fun _ => by simp [isIdent, hkeyword, htext], nofun⟩

theorem ident_formed {c : Char} {cs : List Char} {t : Token} {m : Mode} {rest : List Char} (hc : u.letter c)
    (h : lexIdentOrKeyword u c cs = .token t m rest) : t.Formed u := by
  refine identOrKeyword_formed ?_ h
  have htake : (cs.takeWhile (isValidIdent u)).all (isValidIdent u) := List.all_takeWhile
  simp [isValidIdent, hc, htake]

theorem punctuation_origin {c : Char} {cs : List Char} {t : Token} {m : Mode} {rest : List Char}
    (h : lexPunctuation c cs = .token t m rest) : Origin u (c :: cs) t rest := by
  unfold lexPunctuation at h
  cases hp : punctuation c with
  | some p =>
    simp only [hp] at h
    obtain ⟨rfl, rfl, rfl⟩ := Scan.token.inj h
    refine .inl (.of_typ ?_)
    unfold punctuation at hp
    split at hp <;> first | (obtain rfl := Option.some.inj hp; decide) | cases hp
  | none =>
    simp only [hp] at h
    split_ifs at h with hslash hhead
    · obtain rfl := not_not.mp hslash
      exact .comment hhead h
    · exact .inl (.of_typ (by rw [emit_typ h]; decide))

theorem lexToken_origin : ∀ {cs : List Char} {t : Token} {m : Mode} {rest : List Char}, lexToken u cs = .token t m rest →
    Origin u cs t rest
  | [], _, _, _, h => nomatch h
  | c :: cs, t, m, rest, h => by
    rw [lexToken] at h
    split_ifs at h with hminus hnot hnumber hletter href hstring hspace
    · obtain ⟨rfl, -, -⟩ := Scan.token.inj h
      exact .inl (.other (by decide))
    · obtain ⟨rfl, -, -⟩ := Scan.token.inj h
      exact .inl (.other (by decide))
    · exact .inl (number_formed (by simpa using hnumber) h)
    · exact .inl (ident_formed hletter h)
    · exact .inl (.of_typ (by rw [emit_typ h]; decide))
    · exact .inl (.of_typ (by rw [emit_typ h]; decide))
    · exact (lexToken_origin h).space hspace
    · exact punctuation_origin h

theorem operator_types {c : Char} {two : List (Char × TokenType × Mode)} {typ : TokenType} {mode : Mode}
    (h : operator c = some (two, typ, mode)) : ∀ typ' ∈ typ :: two.map (·.2.1),
      typ' ∉ [TokenType.number, .duration, .ident, .comment] := by
  unfold operator at h
  split at h <;> first | (obtain ⟨rfl, rfl, rfl⟩ := Option.some.inj h; decide) | cases h

theorem operator_formed {c : Char} {cs : List Char} {two : List (Char × TokenType × Mode)} {typ : TokenType} {mode : Mode}
    (hop : operator c = some (two, typ, mode)) {t : Token} {m : Mode} {rest : List Char}
    (h : lexOperator c two typ mode cs = .token t m rest) : t.Formed u := by
  have htypes := operator_types hop
  cases cs with
  | nil =>
    obtain ⟨rfl, -, -⟩ := Scan.token.inj h
    exact .of_typ (htypes typ List.mem_cons_self)
  | cons d cs =>
    rw [lexOperator] at h
    cases hlookup : two.lookup d with
    | none =>
      simp only [hlookup] at h
      obtain ⟨rfl, -, -⟩ := Scan.token.inj h
      exact .of_typ (htypes typ List.mem_cons_self)
    | some p =>
      simp only [hlookup] at h
      obtain ⟨rfl, -, -⟩ := Scan.token.inj h
      obtain ⟨l₁, l₂, hmem, -⟩ := List.lookup_eq_some_iff.mp hlookup
      exact .of_typ (htypes p.1 (List.mem_cons_of_mem typ (List.mem_map.mpr ⟨(d, p), by simp [hmem], rfl⟩)))

theorem tryLexBinaryOperator_origin : ∀ {cs : List Char} {t : Token} {m : Mode} {rest : List Char},
    tryLexBinaryOperator u cs = .token t m rest → Origin u cs t rest
  | [], _, _, _, h => nomatch h
  | c :: cs, t, m, rest, h => by
    rw [tryLexBinaryOperator] at h
    split_ifs at h with hspace hcomment
    · exact (tryLexBinaryOperator_origin h).space hspace
    · obtain ⟨rfl, hhead⟩ := hcomment
      exact .comment hhead h
    · cases hop : operator c with
      | some p =>
        simp only [hop] at h
        exact .inl (operator_formed hop h)
      | none =>
        simp only [hop] at h
        exact lexToken_origin h

/-- Where a regular expression may stand there is no comment. -/
theorem lexRegexOrToken_formed : ∀ {cs : List Char} {t : Token} {m : Mode} {rest : List Char},
    lexRegexOrToken u cs = .token t m rest → t.Formed u
  | [], _, _, _, h => nomatch h
  | c :: cs, t, m, rest, h => by
    rw [lexRegexOrToken] at h
    split_ifs at h with hspace hslash
    · exact lexRegexOrToken_formed h
    · exact .of_typ (by rw [emit_typ h]; decide)
    · obtain hformed | ⟨blank, ds, hblank, heq, -⟩ := lexToken_origin h
      · exact hformed
      · cases blank with
        | nil => exact absurd (List.cons.inj heq).1 hslash
        | cons d blank =>
          obtain ⟨rfl, -⟩ := List.cons.inj heq
          rw [List.all_cons, Bool.and_eq_true] at hblank
          exact absurd hblank.1 hspace

theorem next_origin {m m' : Mode} {cs rest : List Char} {t : Token} (h : next u m cs = .token t m' rest) :
    Origin u cs t rest ∧ (m = .regexOrToken → t.Formed u) := by
  cases m with
  | token => exact ⟨lexToken_origin h, nofun⟩
  | binaryOperator => exact ⟨tryLexBinaryOperator_origin h, nofun⟩
  | regexOrToken => exact ⟨.inl (lexRegexOrToken_formed h), fun _ => lexRegexOrToken_formed h⟩

/-- A comment is read but where a regular expression may stand. -/
theorem next_comment {cs : List Char} (h : cs.head? = some '/') {m : Mode} (hm : m ≠ .regexOrToken) :
    next u m ('/' :: cs) = lexComment cs := by
  have hdigit : u.digit '/' = false := (u.digit_ascii '/' (by decide)).trans (by decide)
  have hletter : u.letter '/' = false := (u.letter_ascii '/' (by decide)).trans (by decide)
  cases m with
  | token =>
    show lexToken u ('/' :: cs) = lexComment cs
    rw [lexToken, if_neg (by decide), if_neg (by decide), hdigit, hletter, if_neg (by decide), if_neg (by decide),
      if_neg (by decide), if_neg (by decide), if_neg (by decide)]
    have hnone : punctuation '/' = none := rfl
    simp only [lexPunctuation, hnone]
    rw [if_neg (by decide), if_pos h]
  | binaryOperator =>
    show tryLexBinaryOperator u ('/' :: cs) = lexComment cs
    rw [tryLexBinaryOperator, if_neg (by decide), if_pos ⟨rfl, h⟩]
  | regexOrToken => exact absurd rfl hm

theorem emit_stop {typ : TokenType} {opening : List Char} {mode : Mode} {r : Option (List Char × List Char)} {t : Token}
    (h : emit typ opening mode r = .stop t) : t.typ = .error := by
  cases r with
  | none => rw [← Scan.stop.inj h]
  | some p => cases h

theorem lexToken_stop : ∀ {cs : List Char} {t : Token}, lexToken u cs = .stop t →
    t.typ = .error ∨ t = ⟨.eof, []⟩ ∧ cs.all isSpace
  | [], t, h => .inr ⟨(Scan.stop.inj h).symm, rfl⟩
  | c :: cs, t, h => by
    rw [lexToken] at h
    split_ifs at h with hminus hnot hnumber hletter href hstring hspace
    · unfold lexNumberOrDurationOrDot at h
      split_ifs at h
      split at h
      · cases h
      · rw [← Scan.stop.inj h]
        exact .inl rfl
    · unfold lexIdentOrKeyword identOrKeyword at h
      split at h
      · cases h
      · by_cases hlambda : c :: cs.takeWhile (isValidIdent u) = "lambda".toList ∧
            (cs.dropWhile (isValidIdent u)).head? = some ':'
        · rw [if_pos hlambda] at h
          cases h
        · rw [if_neg hlambda] at h
          cases h
    · exact .inl (emit_stop h)
    · exact .inl (emit_stop h)
    · rw [List.all_cons, hspace, Bool.true_and]
      exact lexToken_stop h
    · unfold lexPunctuation at h
      split at h
      · cases h
      · split_ifs at h
        · rw [← Scan.stop.inj h]
          exact .inl rfl
        · exact .inl (emit_stop h)
        · exact .inl (emit_stop h)

/-- The lexer ends with an error or after the spaces at the end of the text. -/
theorem next_stop : ∀ {m : Mode} {cs : List Char} {t : Token}, next u m cs = .stop t →
    t.typ = .error ∨ t = ⟨.eof, []⟩ ∧ cs.all isSpace
  | .token, cs, t, h => lexToken_stop h
  | .binaryOperator, [], t, h => lexToken_stop (u := u) h
  | .regexOrToken, [], t, h => lexToken_stop (u := u) h
  | .binaryOperator, c :: cs, t, h => by
    by_cases hspace : isSpace c
    · rw [next_space hspace] at h
      rw [List.all_cons, hspace, Bool.true_and]
      exact next_stop h
    · rw [next, tryLexBinaryOperator, if_neg hspace] at h
      split_ifs at h
      · exact .inl (emit_stop h)
      · split at h
        · cases cs with
          | nil => cases h
          | cons d cs =>
            rw [lexOperator] at h
            split at h <;> cases h
        · exact lexToken_stop h
  | .regexOrToken, c :: cs, t, h => by
    by_cases hspace : isSpace c
    · rw [next_space hspace] at h
      rw [List.all_cons, hspace, Bool.true_and]
      exact next_stop h
    · rw [next, lexRegexOrToken, if_neg hspace] at h
      split_ifs at h
      · exact .inl (emit_stop h)
      · exact lexToken_stop h

/-! ### Texts without an error -/

theorem evaluate_typ (t : Token) : t.evaluate.typ = t.typ := by
  unfold Token.evaluate
  split <;> simp_all

/-- A comment at the end of a text is read as one before the next lines. -/
theorem lexemes_comment {m m' : Mode} {cs : List Char} {t : Token} (h : next u m cs = .token t m' [])
    (ht : t.typ = .comment) {more : List Char} (hmore : ∀ m, lexemes u m more = lexemes u .token more) :
    lexemes u m (cs ++ '\n' :: '\n' :: more) = t.evaluate :: lexemes u .token more := by
  obtain ⟨horigin, hformed⟩ := next_origin h
  obtain hformed' | ⟨blank, ds, hblank, rfl, hhead, hcomment⟩ := horigin
  · exact absurd ht hformed'.comment
  have hm : m ≠ .regexOrToken := fun hm => (hformed hm).comment ht
  obtain ⟨rfl, -, hend⟩ := Scan.token.inj hcomment
  have hhead' : (ds ++ '\n' :: '\n' :: more).head? = some '/' := by
    rw [List.head?_append, hhead]
    rfl
  have hread : next u m (blank ++ '/' :: ds ++ '\n' :: '\n' :: more) = lexComment (ds ++ '\n' :: '\n' :: more) := by
    rw [List.append_assoc, next_blank hblank, List.cons_append, next_comment hhead' hm]
  rw [lexemes_of_token (hread.trans rfl)]
  refine congrArg (_ :: ·) ?_
  obtain hrest | hrest := comment_newlines more ds .false hend
  · rw [hrest, ← hmore .token]
    exact lexemes_congr (next_space (by decide) _ _)
  · rw [hrest]
    apply lexemes_congr
    rw [next_space (by decide), next_space (by decide)]

/-- A text without an error is read alike before two ends of lines, and what
follows them as on its own. -/
theorem lexemes_closed {more : List Char} (hmore : ∀ m, lexemes u m more = lexemes u .token more) {n : ℕ} :
    ∀ {m : Mode} {cs : List Char}, cs.length < n → (∀ t ∈ lexemes u m cs, t.typ ≠ .error) →
      lexemes u m (cs ++ '\n' :: '\n' :: more) = (lexemes u m cs).dropLast ++ lexemes u .token more := by
  have hlines : ∀ m, lexemes u m ('\n' :: '\n' :: more) = lexemes u .token more := by
    intro m
    rw [← hmore m]
    apply lexemes_congr
    rw [next_space (by decide), next_space (by decide)]
  induction n with
  | zero => exact fun h => absurd h (Nat.not_lt_zero _)
  | succ n ih =>
    intro m cs hlen herr
    cases hnext : next u m cs with
    | stop t =>
      rw [lexemes_of_stop hnext] at herr ⊢
      obtain hbad | ⟨-, hblank⟩ := next_stop hnext
      · exact absurd ((evaluate_typ t).trans hbad) (herr _ List.mem_cons_self)
      · rw [List.dropLast_singleton, List.nil_append, ← hlines m]
        exact lexemes_congr (next_blank hblank m _)
    | token t m' rest =>
      rw [lexemes_of_token hnext] at herr ⊢
      have hshort := (next_suffix hnext).2
      have hrest := ih (m := m') (lt_of_lt_of_le hshort (Nat.le_of_lt_succ hlen)) fun t' ht' =>
        herr t' (List.mem_cons_of_mem _ ht')
      have hne : lexemes u m' rest ≠ [] := by
        cases hnext' : next u m' rest with
        | stop t' => simp [lexemes_of_stop hnext']
        | token t' m'' rest' => simp [lexemes_of_token hnext']
      rw [List.dropLast_cons_of_ne_nil hne, List.cons_append, ← hrest]
      by_cases hcomment : rest = [] ∧ t.typ = .comment
      · obtain ⟨rfl, ht⟩ := hcomment
        rw [List.nil_append, hlines, lexemes_comment hnext ht hmore]
      · refine lexemes_of_token (next_append (fun c _ => ⟨rfl, rfl⟩) hnext fun hempty => ⟨rfl, fun ht => ?_⟩)
        exact hcomment ⟨hempty, ht⟩

end Tick
end Chronograf
