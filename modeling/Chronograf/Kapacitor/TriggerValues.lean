/-
# Trigger values

A trigger value is pasted into a script as `formatValue` writes it, evaluated
there, and read back by `varValue`. What is a number to the one need not be a
literal to the other: `formatValue` takes whatever `ParseFloat` does, with signs,
exponents and names of infinity, a literal with a leading zero is octal, numbers
with decimals come back as they are in 32 bits, and a truth value as a word in
small letters, which `formatValue` puts between quotes.

Key definitions: `evaluate`, `varValue`, `Plain`, `Survives`, `Kept`.
Key theorem: `survives_iff`.
-/
import Chronograf.Kapacitor.Tickscripts
import Chronograf.Kapacitor.Tokens
import Chronograf.Lib.Float64
import Chronograf.Lib.Undo
import Mathlib.Data.Rat.Defs
import Mathlib.Algebra.Order.Field.Rat
import Mathlib.Data.List.TakeWhile
import Mathlib.Tactic.Linarith

namespace Chronograf
namespace Kapacitor

open Tick

/-! ### Literals and their values -/

/-- A float is its sign, its mantissa and its exponent. -/
inductive Value
  | int (i : ℤ)
  | float (neg : Bool) (x : ℕ × ℤ)
  | string (s : Text)
  | bool (b : Bool)
  deriving DecidableEq

/-- `strconv.ParseInt(text, base, 64)` of a text without a sign. -/
def parseInt (base : ℕ) (text : Text) : Option ℕ :=
  if text ≠ [] ∧ (∀ c ∈ text, c.isDigit ∧ c.toNat < '0'.toNat + base) ∧ Nat.ofDigitChars base text 0 < 2 ^ 63 then
    some (Nat.ofDigitChars base text 0)
  else none

/-- What `strconv.ParseFloat(text, 64)` gives for digits around a point. -/
def nearest (text : Text) : ℕ × ℤ :=
  let whole := text.takeWhile (· ≠ '.')
  let fraction := (text.dropWhile (· ≠ '.')).tail
  Float64.nearest (Nat.ofDigitChars 10 (whole ++ fraction) 0) (10 ^ fraction.length)

/-- With a point it is a float; otherwise a zero before other digits makes it octal. -/
def newNumber (text : Text) : Option Value :=
  if '.' ∈ text then if parseFloat text then some (.float false (nearest text)) else none
  else (parseInt (if text.head? = some '0' ∧ 1 < text.length then 8 else 10) text).map fun n : ℕ => .int n

/-- The value of `-`, before an integer or a float. -/
def Value.negate : Value → Option Value
  | .int i => some (.int (-i))
  | .float neg x => some (.float (!neg) x)
  | _ => none

/-- The value of tokens that are one literal, with a minus before it or not. -/
def valueOf : List Token → Option Value
  | [⟨.number, t⟩, ⟨.eof, _⟩] => newNumber t
  | [⟨.minus, _⟩, ⟨.number, t⟩, ⟨.eof, _⟩] => newNumber t >>= Value.negate
  | [⟨.string, s⟩, ⟨.eof, _⟩] => some (.string s)
  | [⟨.true, _⟩, ⟨.eof, _⟩] => some (.bool true)
  | [⟨.false, _⟩, ⟨.eof, _⟩] => some (.bool false)
  | _ => none

/-- The value of a text behind an assignment. -/
def evaluate (u : Unicode) (text : Text) : Option Value := valueOf (lexemes u .regexOrToken text)

/-- A float as a fraction. -/
def fraction (x : ℕ × ℤ) : ℕ × ℕ := if 0 ≤ x.2 then (x.1 * 2 ^ x.2.toNat, 1) else (x.1, 2 ^ (-x.2).toNat)

/-- The text of a variable. -/
def varValue : Value → Text
  | .int i => (Int.repr i).toList
  | .float neg x => Float32.shortest neg (fraction x).1 (fraction x).2
  | .string s => s
  | .bool b => if b then "true".toList else "false".toList

/-! ### What is promised -/

/-- The number that a value is. -/
def Value.number : Value → Option ℚ
  | .int i => some i
  | .float neg x => some ((if neg then -1 else 1) * ((fraction x).1 / (fraction x).2))
  | _ => none

/-- Two values of one kind that are the same. -/
def Value.Same : Value → Value → Prop
  | .string s, y => y = .string s
  | .bool b, y => y = .bool b
  | x, y => x.number.isSome ∧ y.number = x.number

/-- A decimal number without an exponent. -/
structure Plain where
  neg : Bool
  whole : Text
  decimals : Option Text
  digits : ∀ c ∈ whole ++ decimals.getD [], c.isDigit
  nonempty : whole ++ decimals.getD [] ≠ []

namespace Plain

variable (d : Plain)

def unsigned : Text := d.whole ++ (d.decimals.map ('.' :: ·)).getD []

def text : Text := (if d.neg then ['-'] else []) ++ d.unsigned

/-- All digits as a number. -/
def mantissa : ℕ := Nat.ofDigitChars 10 (d.whole ++ d.decimals.getD []) 0

/-- Its value, of 64 bits if there are decimals. -/
def value : Value :=
  match d.decimals with
  | none => .int ((if d.neg then -1 else 1) * d.mantissa)
  | some ds => .float d.neg (Float64.nearest d.mantissa (10 ^ ds.length))

end Plain

/-- What a text means: a number its value, any other text but `TRUE` and `FALSE` its characters. -/
def Means (v : Text) (x : Value) : Prop :=
  if parseFloat v then ∃ d : Plain, v = d.text ∧ x = d.value
  else if v = "TRUE".toList then x = .bool true
  else if v = "FALSE".toList then x = .bool false
  else x = .string v

/-- The text is written as a literal that means it, and what is read back as one of the same value. -/
def Survives (u : Unicode) (v : Text) : Prop :=
  ∃ x, evaluate u (formatValue v) = some x ∧ Means v x ∧ ∃ y, evaluate u (formatValue (varValue x)) = some y ∧ x.Same y

/-- What the evaluation of its text gives. -/
def Plain.literal (d : Plain) : Option Value :=
  if d.neg then newNumber d.unsigned >>= Value.negate else newNumber d.unsigned

/-- A whole number of 63 bits that is not written with zeros before it, if it is
not below 8; or one with decimals whose text of 32 bits is of the same number. -/
def Plain.Kept (d : Plain) : Prop :=
  match d.decimals with
  | none => d.mantissa < 2 ^ 63 ∧ (d.whole.head? = some '0' → 1 < d.whole.length → d.mantissa < 8)
  | some _ => ∃ d' : Plain, varValue d.value = d'.text ∧ ∃ y, d'.literal = some y ∧ y.number = d.value.number

/-- A number that is kept, or a text that does not end with a backslash. -/
def Kept (v : Text) : Prop :=
  if parseFloat v then ∃ d : Plain, v = d.text ∧ d.Kept
  else v ≠ "TRUE".toList ∧ v ≠ "FALSE".toList ∧ v.getLast? ≠ some '\\'

/-! ### Lexing -/

section Lexing

variable {u : Unicode} {c : Char} {cs ds rest : Text}

theorem digit_of_isDigit (hc : c.isDigit) : u.digit c = true := by
  have hascii : c.val < 128 := by
    rw [Char.isDigit, Bool.and_eq_true, decide_eq_true_iff, decide_eq_true_iff] at hc
    exact UInt32.lt_of_le_of_lt hc.2 (by decide)
  rw [u.digit_ascii c hascii, hc]

theorem ne_of_isDigit (hc : c.isDigit) {d : Char} (hd : d.isDigit = false) : c ≠ d := by
  rintro rfl
  rw [hc] at hd
  cases hd

theorem not_space_of_isDigit (hc : c.isDigit) : isSpace c = false := by
  by_contra hspace
  obtain ⟨_, hdigit⟩ := ascii.space c (Bool.eq_true_of_not_eq_false hspace)
  rw [digit_of_isDigit hc] at hdigit
  cases hdigit

/-- What ends a number. -/
def Ends (u : Unicode) (rest : Text) : Prop := ∀ c ∈ rest.head?, c ≠ '.' ∧ u.digit c = false ∧ isDurUnit c = false

theorem numberOrDuration_end (hrest : Ends u rest) (dec : Bool) : numberOrDuration u dec rest = some (.number, [], rest) := by
  cases rest with
  | nil => rfl
  | cons c cs =>
    obtain ⟨hpoint, hdigit, hunit⟩ := hrest c rfl
    rw [numberOrDuration, if_neg hpoint, hdigit, hunit, Bool.and_false]
    rfl

/-- The rest of a number. -/
theorem numberOrDuration_tail (hrest : Ends u rest) : ∀ {cs : Text} {dec : Bool}, numberTail u dec cs →
    numberOrDuration u dec (cs ++ rest) = some (.number, cs, rest)
  | [], dec, _ => numberOrDuration_end hrest dec
  | c :: cs, dec, htail => by
    rw [numberTail] at htail
    rw [List.cons_append, numberOrDuration]
    split_ifs at htail ⊢ with hpoint hdec hdigit
    · rw [hdec] at htail
      cases htail
    · rw [numberOrDuration_tail hrest (Bool.and_eq_true_iff.mp htail).2]
      rfl
    · rw [numberOrDuration_tail hrest (Bool.and_eq_true_iff.mp htail).2]
      rfl
    · exact absurd (Bool.and_eq_true_iff.mp htail).1 hdigit
    · exact absurd (Bool.and_eq_true_iff.mp htail).1 hdigit

/-- A number is one token. -/
theorem lexToken_number (hrest : Ends u rest) (hnumber : isNumber u cs) (hminus : cs.head? ≠ some '-') (hnot : cs.head? ≠ some '!') :
    lexToken u (cs ++ rest) = .token ⟨.number, cs⟩ .binaryOperator rest := by
  cases cs with
  | nil => cases hnumber
  | cons c cs =>
    have hfirst : u.digit c || c = '.' := by
      rw [isNumber] at hnumber
      split_ifs at hnumber with hpoint
      · simp [hpoint]
      · simp [(Bool.and_eq_true_iff.mp hnumber).1]
    have htail : numberTail u (c = '.') cs := by
      rw [isNumber] at hnumber
      split_ifs at hnumber with hpoint
      · simpa [hpoint] using (Bool.and_eq_true_iff.mp hnumber).2
      · simpa [hpoint] using (Bool.and_eq_true_iff.mp hnumber).2
    have hpeek : ¬ (c = '.' ∧ ¬ (cs ++ rest).head?.any u.digit) := by
      rintro ⟨hpoint, hpeek⟩
      rw [isNumber, if_pos hpoint, Bool.and_eq_true_iff] at hnumber
      cases cs with
      | nil => exact Bool.false_ne_true hnumber.1
      | cons d cs => exact hpeek hnumber.1
    rw [List.cons_append, lexToken, if_neg fun h => hminus (congrArg some h), if_neg fun h => hnot (congrArg some h), if_pos hfirst,
      lexNumberOrDurationOrDot, if_neg hpeek, numberOrDuration_tail hrest htail]

theorem numberTail_digits (hds : ∀ c ∈ ds, c.isDigit) (dec : Bool) (cs : Text) : numberTail u dec (ds ++ cs) = numberTail u dec cs := by
  induction ds with
  | nil => rfl
  | cons c ds ih =>
    obtain ⟨hc, hds⟩ := List.forall_mem_cons.mp hds
    rw [List.cons_append, numberTail, if_neg (ne_of_isDigit hc rfl), digit_of_isDigit hc, ih hds, Bool.true_and]

namespace Plain

variable (d : Plain)

theorem whole_digits : ∀ c ∈ d.whole, c.isDigit := fun c hc => d.digits c (List.mem_append_left _ hc)

theorem decimals_digits {ds : Text} (hds : d.decimals = some ds) : ∀ c ∈ ds, c.isDigit := by
  intro c hc
  refine d.digits c (List.mem_append_right _ ?_)
  rw [hds]
  exact hc

theorem isNumber_unsigned : isNumber u d.unsigned := by
  have hnonempty := d.nonempty
  have htail : ∀ dec, (d.decimals ≠ none → dec = false) → numberTail u dec ((d.decimals.map ('.' :: ·)).getD []) := by
    intro dec hdec
    cases hds : d.decimals with
    | none => rfl
    | some ds =>
      rw [hdec (by rw [hds]; nofun)]
      have hend := numberTail_digits (u := u) (d.decimals_digits hds) true []
      rw [List.append_nil] at hend
      show numberTail u false ('.' :: ds)
      rw [numberTail, if_pos rfl, hend]
      rfl
  rw [unsigned]
  cases hwhole : d.whole with
  | nil =>
    rw [hwhole, List.nil_append] at hnonempty
    cases hds : d.decimals with
    | none => exact absurd (by rw [hds]; rfl) hnonempty
    | some ds =>
      have hdigits := d.decimals_digits hds
      rw [hds] at hnonempty
      cases ds with
      | nil => exact absurd rfl hnonempty
      | cons c ds =>
        have hend := numberTail_digits (u := u) hdigits true []
        rw [List.append_nil] at hend
        show isNumber u ('.' :: c :: ds)
        rw [isNumber, if_pos rfl, hend]
        exact Bool.and_eq_true_iff.mpr ⟨digit_of_isDigit (hdigits c List.mem_cons_self), rfl⟩
  | cons c whole =>
    obtain ⟨hc, hdigits⟩ := List.forall_mem_cons.mp (hwhole ▸ d.whole_digits)
    rw [List.cons_append, isNumber, if_neg (ne_of_isDigit hc rfl), digit_of_isDigit hc, numberTail_digits hdigits, Bool.true_and]
    exact htail false fun _ => rfl

/-- It begins with a digit or a point. -/
theorem head_unsigned : ∃ c cs, d.unsigned = c :: cs ∧ (c.isDigit ∨ c = '.') := by
  have hnonempty := d.nonempty
  rw [unsigned]
  cases hwhole : d.whole with
  | nil =>
    rw [hwhole, List.nil_append] at hnonempty
    cases hds : d.decimals with
    | none => exact absurd (by rw [hds]; rfl) hnonempty
    | some ds => exact ⟨'.', ds, rfl, .inr rfl⟩
  | cons c whole => exact ⟨c, _, rfl, .inl (d.whole_digits c (hwhole ▸ List.mem_cons_self))⟩

end Plain

theorem next_of_not_space (hspace : isSpace c = false) (hslash : c ≠ '/') (cs : Text) :
    next u .regexOrToken (c :: cs) = lexToken u (c :: cs) := by
  rw [next, lexRegexOrToken, hspace, if_neg Bool.false_ne_true, if_neg hslash]

theorem lexToken_unsigned (d : Plain) (hrest : Ends u rest) :
    lexToken u (d.unsigned ++ rest) = .token ⟨.number, d.unsigned⟩ .binaryOperator rest := by
  obtain ⟨c, cs, htext, hc⟩ := d.head_unsigned
  have hhead : ∀ e : Char, e.isDigit = false → e ≠ '.' → d.unsigned.head? ≠ some e := by
    rintro e he hpoint h
    rw [htext] at h
    obtain rfl := Option.some.inj h
    rcases hc with hc | hc
    · rw [hc] at he
      cases he
    · exact hpoint hc
  exact lexToken_number hrest d.isNumber_unsigned (hhead '-' rfl (by decide)) (hhead '!' rfl (by decide))

theorem next_unsigned (d : Plain) (hrest : Ends u rest) :
    next u .regexOrToken (d.unsigned ++ rest) = .token ⟨.number, d.unsigned⟩ .binaryOperator rest := by
  rw [← lexToken_unsigned d hrest]
  obtain ⟨c, cs, htext, hc⟩ := d.head_unsigned
  have hplain : isSpace c = false ∧ c ≠ '/' := by
    rcases hc with hc | rfl
    · exact ⟨not_space_of_isDigit hc, ne_of_isDigit hc rfl⟩
    · exact ⟨rfl, by decide⟩
  rw [htext]
  exact next_of_not_space hplain.1 hplain.2 _

theorem next_minus (cs : Text) : next u .regexOrToken ('-' :: cs) = .token ⟨.minus, ['-']⟩ .token cs :=
  (next_of_not_space rfl (by decide) cs).trans (by rw [lexToken, if_pos rfl])

/-- The tokens of a decimal number with more text after it. -/
theorem lexemes_text (d : Plain) (hrest : Ends u rest) : lexemes u .regexOrToken (d.text ++ rest) =
    (if d.neg then [⟨.minus, ['-']⟩] else []) ++ ⟨.number, d.unsigned⟩ :: lexemes u .binaryOperator rest := by
  rw [Plain.text]
  split_ifs
  · have hnumber : next u .token (d.unsigned ++ rest) = .token ⟨.number, d.unsigned⟩ .binaryOperator rest := lexToken_unsigned d hrest
    rw [List.append_assoc, List.singleton_append, lexemes_of_token (next_minus _), lexemes_of_token hnumber]
    rfl
  · rw [List.nil_append, lexemes_of_token (next_unsigned d hrest)]
    rfl

theorem ends_nil : Ends u [] := nofun

/-- A decimal number is read as a literal. -/
theorem evaluate_text (d : Plain) : evaluate u d.text = d.literal := by
  have heof : next u .binaryOperator [] = .stop ⟨.eof, []⟩ := rfl
  have htokens := lexemes_text (u := u) d ends_nil
  rw [List.append_nil, lexemes_of_stop heof] at htokens
  rw [evaluate, htokens, Plain.literal]
  split_ifs <;> rfl

theorem exists_lexemes (m : Mode) (cs : Text) : ∃ t ts, lexemes u m cs = t :: ts := by
  cases hnext : next u m cs with
  | token t m' rest => exact ⟨_, _, lexemes_of_token hnext⟩
  | stop t => exact ⟨_, _, lexemes_of_stop hnext⟩

/-- More tokens than those of a literal. -/
theorem valueOf_more {sign : List Token} {t t' : Token} {text : Text} {ts : List Token} (hsign : sign = [] ∨ sign = [⟨.minus, ['-']⟩]) :
    valueOf (sign ++ ⟨.number, text⟩ :: t :: t' :: ts) = none := by
  rcases hsign with rfl | rfl <;> unfold valueOf <;> split <;> first | rfl | (next heq => cases heq)

theorem identOrKeyword_token (text rest : Text) : ∃ t m rest', identOrKeyword text rest = .token t m rest' := by
  rw [identOrKeyword]
  split
  · exact ⟨_, _, _, rfl⟩
  · split_ifs <;> exact ⟨_, _, _, rfl⟩

/-- With an exponent it is not one literal. -/
theorem evaluate_exponent (d : Plain) {e : Char} (he : e ∈ ['e', 'E']) (cs : Text) : evaluate u (d.text ++ e :: cs) = none := by
  have hletter : u.letter e = true ∧ u.digit e = false ∧ isSpace e = false ∧ e ≠ '/' ∧ e ≠ '.' ∧ e ≠ '-' ∧ e ≠ '!' ∧ operator e = none ∧ isDurUnit e = false := by
    rcases List.mem_pair.mp he with rfl | rfl
    · exact ⟨u.letter_ascii _ (by decide), u.digit_ascii _ (by decide), rfl, by decide, by decide, by decide, by decide, rfl, rfl⟩
    · exact ⟨u.letter_ascii _ (by decide), u.digit_ascii _ (by decide), rfl, by decide, by decide, by decide, by decide, rfl, rfl⟩
  obtain ⟨hletter, hdigit, hspace, hslash, hpoint, hminus, hnot, hoperator, hunit⟩ := hletter
  have hends : Ends u (e :: cs) := by
    rintro c ⟨⟩
    exact ⟨hpoint, hdigit, hunit⟩
  obtain ⟨t, m, rest, hnext⟩ : ∃ t m rest, next u .binaryOperator (e :: cs) = .token t m rest := by
    have hword : lexToken u (e :: cs) = lexIdentOrKeyword u e cs := by
      rw [lexToken, if_neg hminus, if_neg hnot, hdigit, decide_eq_false hpoint, Bool.or_false, if_neg Bool.false_ne_true, if_pos hletter]
    rw [next, tryLexBinaryOperator, hspace, if_neg Bool.false_ne_true, if_neg fun h => hslash h.1, hoperator]
    exact hword ▸ identOrKeyword_token _ _
  have htokens := lexemes_text d hends
  rw [lexemes_of_token hnext] at htokens
  rw [evaluate, htokens]
  obtain ⟨t', ts, hts⟩ := exists_lexemes (u := u) m rest
  rw [hts]
  split_ifs
  · exact valueOf_more (.inr rfl)
  · exact valueOf_more (.inl rfl)

theorem letter_of_isAlpha (hc : c.isAlpha) : u.letter c = true := by
  have hascii : c.val < 128 := by
    simp only [Char.isAlpha, Char.isUpper, Char.isLower, Bool.or_eq_true, Bool.and_eq_true, decide_eq_true_iff] at hc
    rcases hc with hc | hc
    · exact UInt32.lt_of_le_of_lt hc.2 (by decide)
    · exact UInt32.lt_of_le_of_lt hc.2 (by decide)
  rw [u.letter_ascii c hascii, hc]

theorem isAlpha_of_toLower (hc : c.toLower.isAlpha) : c.isAlpha := by
  rw [Char.toLower] at hc
  split_ifs at hc with hupper
  · have hA : c.isUpper = true := by
      rw [Char.isUpper, decide_eq_true_iff]
      exact hupper
    rw [Char.isAlpha, hA]
    rfl
  · exact hc

theorem ne_of_isAlpha (hc : c.isAlpha) {d : Char} (hd : d.isAlpha = false) : c ≠ d := by
  rintro rfl
  rw [hc] at hd
  cases hd

theorem not_space_of_isAlpha (u : Unicode) (hc : c.isAlpha) : isSpace c = false := by
  by_contra hspace
  have hletter := (u.space c (Bool.eq_true_of_not_eq_false hspace)).1
  rw [letter_of_isAlpha hc] at hletter
  cases hletter

theorem lexToken_letter (hc : c.isAlpha) (cs : Text) : lexToken u (c :: cs) = lexIdentOrKeyword u c cs := by
  have hdigit : u.digit c = false := u.letter_not_digit c (letter_of_isAlpha hc)
  rw [lexToken, if_neg (ne_of_isAlpha hc rfl), if_neg (ne_of_isAlpha hc rfl), hdigit, decide_eq_false (ne_of_isAlpha hc rfl), Bool.or_false,
    if_neg Bool.false_ne_true, if_pos (letter_of_isAlpha hc)]

/-- The types of the tokens that literals begin with. -/
def literalTypes : List TokenType := [.number, .minus, .string, .true, .false]

/-- A word that is not a keyword is an identifier or `lambda`. -/
theorem identOrKeyword_typ {text rest : Text} (hkeyword : keywords.lookup (String.ofList text) = none) :
    ∃ t m rest', identOrKeyword text rest = .token t m rest' ∧ t.typ ∉ literalTypes := by
  rw [identOrKeyword, hkeyword]
  dsimp only
  split_ifs
  · exact ⟨_, _, _, rfl, (by decide : TokenType.lambda ∉ literalTypes)⟩
  · exact ⟨_, _, _, rfl, (by decide : TokenType.ident ∉ literalTypes)⟩

theorem lookup_name (hc : c.toLower ∈ ['i', 'n']) (cs : Text) : keywords.lookup (String.ofList (c :: cs)) = none := by
  have hheads : ∀ p ∈ keywords, ∀ d ∈ p.1.toList.head?, d.toLower ∉ ['i', 'n'] := by simp [keywords]
  refine List.lookup_eq_none_iff.mpr fun p hp => ?_
  rw [bne_iff_ne]
  rintro heq
  refine hheads p hp c ?_ hc
  rw [← heq, String.toList_ofList]
  rfl

theorem lexToken_name (hc : c.toLower ∈ ['i', 'n']) (cs : Text) :
    ∃ t m rest, lexToken u (c :: cs) = .token t m rest ∧ t.typ ∉ literalTypes := by
  have halpha : c.isAlpha := by
    refine isAlpha_of_toLower ?_
    rcases List.mem_pair.mp hc with h | h <;> rw [h] <;> rfl
  rw [lexToken_letter halpha, lexIdentOrKeyword]
  exact identOrKeyword_typ (lookup_name hc _)

theorem valueOf_other {t : Token} {ts : List Token} (ht : t.typ ∉ literalTypes) : valueOf (t :: ts) = none := by
  unfold valueOf
  split
  case h_6 => rfl
  all_goals
    next heq =>
    obtain ⟨rfl, _⟩ := List.cons.inj heq
    exact absurd (by simp [literalTypes]) ht

theorem valueOf_minus {t s : Token} {ts : List Token} (hs : s.typ = .minus) (ht : t.typ ∉ literalTypes) : valueOf (s :: t :: ts) = none := by
  unfold valueOf
  split
  case h_2 =>
    next heq =>
    obtain ⟨_, htail⟩ := List.cons.inj heq
    obtain ⟨rfl, _⟩ := List.cons.inj htail
    exact absurd (by simp [literalTypes]) ht
  case h_6 => rfl
  all_goals
    next heq =>
    obtain ⟨rfl, _⟩ := List.cons.inj heq
    cases hs

/-- Names of infinity are not literals. -/
theorem evaluate_name (hc : c.toLower ∈ ['i', 'n']) (cs : Text) :
    evaluate u (c :: cs) = none ∧ evaluate u ('-' :: c :: cs) = none := by
  obtain ⟨t, m, rest, hnext, ht⟩ := lexToken_name (u := u) hc cs
  have halpha : c.isAlpha := by
    refine isAlpha_of_toLower ?_
    rcases List.mem_pair.mp hc with h | h <;> rw [h] <;> rfl
  have hspace : isSpace c = false := not_space_of_isAlpha u halpha
  have hfirst : next u .regexOrToken (c :: cs) = .token t m rest :=
    (next_of_not_space hspace (ne_of_isAlpha halpha rfl) cs).trans hnext
  have hsecond : next u .token (c :: cs) = .token t m rest := hnext
  rw [← evaluate_typ] at ht
  constructor
  · rw [evaluate, lexemes_of_token hfirst, valueOf_other ht]
  · rw [evaluate, lexemes_of_token (next_minus _), lexemes_of_token hsecond, valueOf_minus rfl ht]

/-- A plus is no sign of a literal. -/
theorem evaluate_plus (cs : Text) : evaluate u ('+' :: cs) = none := by
  have hletter : u.letter '+' = false := u.letter_ascii '+' (by decide)
  have hdigit : u.digit '+' = false := u.digit_ascii '+' (by decide)
  have hstop : next u .regexOrToken ('+' :: cs) = .stop ⟨.error, []⟩ := by
    rw [next_of_not_space rfl (by decide), lexToken, if_neg (by decide), if_neg (by decide), hdigit, if_neg (by decide), hletter]
    rfl
  rw [evaluate, lexemes_of_stop hstop]
  rfl

end Lexing

/-! ### What `ParseFloat` takes -/

section Numbers

variable {v : Text}

/-- Without its sign. -/
def unsignedOf : Text → Text
  | '+' :: cs => cs
  | '-' :: cs => cs
  | cs => cs

/-- The digits after a point, and the rest. -/
def afterPoint : Text → Text × Text
  | '.' :: cs => (cs.takeWhile Char.isDigit, cs.dropWhile Char.isDigit)
  | cs => ([], cs)

def exponentOf : Text → Option ℤ
  | [] => some 0
  | e :: cs =>
    let (sign, ds) := match cs with
      | '+' :: cs => ((1 : ℤ), cs)
      | '-' :: cs => (-1, cs)
      | cs => (1, cs)
    if (e = 'e' ∨ e = 'E') ∧ ds ≠ [] ∧ ds.all Char.isDigit then
      some (sign * ds.foldl (fun n d => if n < 10000 then 10 * n + (d.toNat - '0'.toNat : ℕ) else n) 0)
    else none

def floatNames : List Text := ["inf", "+inf", "-inf", "infinity", "+infinity", "-infinity", "nan"].map String.toList

/-- The number is in the range. -/
def inRange (mantissa : ℕ) (e : ℤ) : Bool := mantissa * 10 ^ e.toNat < (2 ^ 54 - 1) * 2 ^ 970 * 10 ^ (-e).toNat

/-- The digits of a number without its sign: whole part, decimals and what is after them. -/
def floatDigits (cs : Text) : Text × Text × Text := (cs.takeWhile Char.isDigit, afterPoint (cs.dropWhile Char.isDigit))

def decimalInRange (p : Text × Text × Text) : Bool :=
  p.1 ++ p.2.1 ≠ [] && (exponentOf p.2.2).any fun e => inRange (Nat.ofDigitChars 10 (p.1 ++ p.2.1) 0) (e - p.2.1.length)

theorem parseFloat_eq (v : Text) : parseFloat v =
    (decide (v.map Char.toLower ∈ floatNames) || decimalInRange (floatDigits (unsignedOf v))) := by
  unfold parseFloat decimalInRange inRange
  generalize (2 ^ 54 - 1) * 2 ^ 970 = largest
  rfl

theorem isAlpha_toLower {c : Char} (hc : c.isAlpha) : c.toLower.isAlpha := by
  rw [Char.toLower]
  split_ifs with hupper
  · have hA : 'A'.val.toNat = 65 := rfl
    have hZ : 'Z'.val.toNat = 90 := rfl
    have ha : 'a'.val.toNat = 97 := rfl
    have hz : 'z'.val.toNat = 122 := rfl
    have hsub : ('a'.val - 'A'.val).toNat = 32 := rfl
    simp only [ge_iff_le, UInt32.le_iff_toNat_le] at hupper
    simp only [Char.isAlpha, Char.isUpper, Char.isLower, Bool.or_eq_true, Bool.and_eq_true, decide_eq_true_iff, ge_iff_le, UInt32.le_iff_toNat_le,
      UInt32.toNat_add, hsub]
    omega
  · exact hc

/-- What is no letter is no letter in small letters. -/
theorem toLower_eq {c d : Char} (h : c.toLower = d) (hd : d.isAlpha = false) : c = d := by
  rw [← h] at hd
  rw [← h, Char.toLower]
  split_ifs with hupper
  · have hA : c.isAlpha = true := by
      rw [Char.isAlpha, show c.isUpper = true from decide_eq_true hupper]
      rfl
    rw [isAlpha_toLower hA] at hd
    cases hd
  · rfl

/-- How the names begin. -/
def beginsName : Text → Bool
  | '+' :: _ => true
  | '-' :: c :: _ => c ∈ ['i', 'n']
  | c :: _ => c ∈ ['i', 'n']
  | [] => false

theorem floatNames_begin : ∀ name ∈ floatNames, beginsName name := by decide +kernel

theorem floatNames_letters : ∀ name ∈ floatNames, ∀ c ∈ name, c.isDigit = false := by simp [floatNames]

theorem name_cases (h : v.map Char.toLower ∈ floatNames) :
    (∃ c cs, (v = c :: cs ∨ v = '-' :: c :: cs) ∧ c.toLower ∈ ['i', 'n']) ∨ ∃ cs, v = '+' :: cs := by
  have hbegin := floatNames_begin _ h
  cases v with
  | nil => cases hbegin
  | cons c cs =>
    rw [List.map_cons, beginsName.eq_def] at hbegin
    split at hbegin
    · next heq =>
      obtain ⟨hc, _⟩ := List.cons.inj heq
      exact .inr ⟨cs, by rw [toLower_eq hc rfl]⟩
    · next heq =>
      obtain ⟨hc, hcs⟩ := List.cons.inj heq
      obtain ⟨d, cs, rfl, rfl, _⟩ := List.map_eq_cons_iff.mp hcs
      exact .inl ⟨d, cs, .inr (by rw [toLower_eq hc rfl]), of_decide_eq_true hbegin⟩
    · next heq =>
      obtain ⟨hc, _⟩ := List.cons.inj heq
      exact .inl ⟨c, cs, .inl rfl, by rw [hc]; exact of_decide_eq_true hbegin⟩
    · cases hbegin

theorem exponentOf_cases {rest : Text} (h : (exponentOf rest).isSome) : rest = [] ∨ ∃ e ∈ ['e', 'E'], ∃ cs, rest = e :: cs := by
  cases rest with
  | nil => exact .inl rfl
  | cons e cs =>
    by_cases he : e = 'e' ∨ e = 'E'
    · exact .inr ⟨e, List.mem_pair.mpr he, cs, rfl⟩
    · have hnone : exponentOf (e :: cs) = none := by
        unfold exponentOf
        dsimp only
        split <;> exact if_neg fun h => he h.1
      rw [hnone] at h
      cases h

/-- Digits, a point or none, and what is after them. -/
theorem exists_plain {cs : Text} (neg : Bool) (h : (floatDigits cs).1 ++ (floatDigits cs).2.1 ≠ []) :
    ∃ d : Plain, d.neg = neg ∧ cs = d.unsigned ++ (floatDigits cs).2.2 := by
  have hsplit : cs = cs.takeWhile Char.isDigit ++ cs.dropWhile Char.isDigit := List.takeWhile_append_dropWhile.symm
  have hwhole : ∀ c ∈ cs.takeWhile Char.isDigit, c.isDigit := fun c hc => List.mem_takeWhile_imp hc
  rw [floatDigits] at h ⊢
  generalize cs.takeWhile Char.isDigit = whole at *
  generalize cs.dropWhile Char.isDigit = after at *
  subst hsplit
  rw [afterPoint.eq_def] at h ⊢
  split at h
  · next ds =>
    have hdigits : ∀ c ∈ whole ++ ds.takeWhile Char.isDigit, c.isDigit :=
      List.forall_mem_append.mpr ⟨hwhole, fun c hc => List.mem_takeWhile_imp hc⟩
    refine ⟨⟨neg, whole, some (ds.takeWhile Char.isDigit), hdigits, h⟩, rfl, ?_⟩
    rw [Plain.unsigned, List.append_assoc]
    exact congrArg (fun t => whole ++ '.' :: t) List.takeWhile_append_dropWhile.symm
  · have hdigits : ∀ c ∈ whole ++ [], c.isDigit := List.forall_mem_append.mpr ⟨hwhole, List.forall_mem_nil _⟩
    refine ⟨⟨neg, whole, none, hdigits, h⟩, rfl, ?_⟩
    rw [Plain.unsigned, List.append_assoc]
    rfl

/-- What is a number to `ParseFloat`. -/
theorem parseFloat_cases (h : parseFloat v) :
    (∃ c cs, (v = c :: cs ∨ v = '-' :: c :: cs) ∧ c.toLower ∈ ['i', 'n']) ∨ (∃ cs, v = '+' :: cs) ∨
      ∃ (d : Plain) (rest : Text), v = d.text ++ rest ∧ (rest = [] ∨ ∃ e ∈ ['e', 'E'], ∃ cs, rest = e :: cs) := by
  rw [parseFloat_eq, Bool.or_eq_true, decide_eq_true_iff] at h
  rcases h with hname | hnumber
  · exact (name_cases hname).imp_right .inl
  · rw [decimalInRange, Bool.and_eq_true, decide_eq_true_iff] at hnumber
    obtain ⟨hnonempty, hexponent⟩ := hnumber
    have hrest := exponentOf_cases (Option.isSome_of_any hexponent)
    generalize hunsigned : unsignedOf v = cs at hnonempty hrest
    rw [unsignedOf.eq_def] at hunsigned
    split at hunsigned
    · next cs' => exact .inr (.inl ⟨cs', rfl⟩)
    · next cs' =>
      obtain ⟨d, hneg, hcs⟩ := exists_plain true hnonempty
      refine .inr (.inr ⟨d, (floatDigits cs).2.2, ?_, hrest⟩)
      rw [Plain.text, hneg, if_pos rfl, List.append_assoc, ← hcs, hunsigned]
      rfl
    · obtain ⟨d, hneg, hcs⟩ := exists_plain false hnonempty
      refine .inr (.inr ⟨d, (floatDigits cs).2.2, ?_, hrest⟩)
      rw [Plain.text, hneg, if_neg Bool.false_ne_true, List.nil_append, ← hcs, hunsigned]

namespace Plain

variable (d : Plain)

/-- How many decimals there are. -/
def scale : ℕ := (d.decimals.getD []).length

theorem not_name : d.text.map Char.toLower ∉ floatNames := by
  intro h
  obtain ⟨c, hc⟩ := List.exists_mem_of_ne_nil _ d.nonempty
  have hdigit := d.digits c hc
  have hmem : c ∈ d.text := by
    refine List.mem_append_right _ ?_
    rcases List.mem_append.mp hc with hc | hc
    · exact List.mem_append_left _ hc
    · refine List.mem_append_right _ ?_
      cases hds : d.decimals with
      | none =>
        rw [hds] at hc
        cases hc
      | some ds =>
        rw [hds] at hc
        exact List.mem_cons_of_mem '.' hc
  have hlower := floatNames_letters _ h _ (List.mem_map_of_mem hmem)
  have hsame : c.toLower = c := by
    rw [Char.toLower, dif_neg]
    intro hupper
    have halpha : c.isAlpha = true := by
      rw [Char.isAlpha, show c.isUpper = true from decide_eq_true hupper]
      rfl
    have hnot := ascii.letter_not_digit c (letter_of_isAlpha halpha)
    rw [digit_of_isDigit hdigit] at hnot
    cases hnot
  rw [hsame, hdigit] at hlower
  cases hlower

theorem unsignedOf_text : unsignedOf d.text = d.unsigned := by
  rw [text]
  split_ifs
  · rfl
  · obtain ⟨c, cs, htext, hc⟩ := d.head_unsigned
    have hplus : c ≠ '+' := by
      rcases hc with hc | rfl
      · exact ne_of_isDigit hc rfl
      · decide
    have hminus : c ≠ '-' := by
      rcases hc with hc | rfl
      · exact ne_of_isDigit hc rfl
      · decide
    rw [List.nil_append, htext, unsignedOf.eq_def]
    split
    · next heq => exact absurd (List.cons.inj heq).1 hplus
    · next heq => exact absurd (List.cons.inj heq).1 hminus
    · rfl

theorem floatDigits_unsigned : floatDigits d.unsigned = (d.whole, d.decimals.getD [], []) := by
  have hwhole := d.whole_digits
  rw [floatDigits, unsigned]
  cases hds : d.decimals with
  | none =>
    show (List.takeWhile _ (d.whole ++ []), afterPoint (List.dropWhile _ (d.whole ++ []))) = _
    rw [List.append_nil, List.takeWhile_eq_self_iff.mpr hwhole, List.dropWhile_eq_nil_iff.mpr hwhole]
    rfl
  | some ds =>
    have hdigits := d.decimals_digits hds
    show (List.takeWhile _ (d.whole ++ '.' :: ds), afterPoint (List.dropWhile _ (d.whole ++ '.' :: ds))) = _
    rw [List.takeWhile_append_of_pos hwhole, List.dropWhile_append_of_pos hwhole, List.takeWhile_cons_of_neg (by decide),
      List.dropWhile_cons_of_neg (by decide), List.append_nil]
    show (d.whole, List.takeWhile _ ds, List.dropWhile _ ds) = _
    rw [List.takeWhile_eq_self_iff.mpr hdigits, List.dropWhile_eq_nil_iff.mpr hdigits]
    rfl

theorem parseFloat_text : parseFloat d.text = inRange d.mantissa (-d.scale) := by
  rw [parseFloat_eq, decide_eq_false d.not_name, Bool.false_or, d.unsignedOf_text, d.floatDigits_unsigned, decimalInRange,
    decide_eq_true d.nonempty, Bool.true_and, exponentOf, Option.any_some, zero_sub, mantissa, scale]

/-- The sign does not count. -/
theorem parseFloat_unsigned : parseFloat d.unsigned = parseFloat d.text :=
  (parseFloat_text ⟨false, d.whole, d.decimals, d.digits, d.nonempty⟩).trans d.parseFloat_text.symm

theorem inRange_of_lt {n : ℕ} (hn : n < 2 ^ 126) : inRange n 0 = true := by
  have hpower : 2 ^ 126 ≤ 2 ^ 970 := Nat.pow_le_pow_right (by decide) (by decide)
  rw [inRange, decide_eq_true_iff, neg_zero, Int.toNat_zero, pow_zero, mul_one, mul_one]
  exact (hn.trans_le hpower).trans_le (Nat.le_mul_of_pos_left _ (by decide))

theorem whole_text (h : d.decimals = none) : d.unsigned = d.whole ∧ d.mantissa = Nat.ofDigitChars 10 d.whole 0 ∧ d.whole ≠ [] ∧ d.scale = 0 := by
  have hnonempty := d.nonempty
  rw [h] at hnonempty
  rw [unsigned, mantissa, scale, h]
  exact ⟨List.append_nil _, by rw [Option.getD_none, List.append_nil], by simpa using hnonempty, rfl⟩

end Plain

/-! ### Octal numbers -/

theorem ofDigitChars_concat (b : ℕ) (ds : Text) (c : Char) :
    Nat.ofDigitChars b (ds ++ [c]) 0 = b * Nat.ofDigitChars b ds 0 + (c.toNat - '0'.toNat) := by
  rw [Nat.ofDigitChars_append, Nat.ofDigitChars_cons, Nat.ofDigitChars_nil]

theorem octal_le (ds : Text) : Nat.ofDigitChars 8 ds 0 ≤ Nat.ofDigitChars 10 ds 0 := by
  induction ds using List.reverseRecOn with
  | nil => exact le_rfl
  | append_singleton ds c ih =>
    rw [ofDigitChars_concat, ofDigitChars_concat]
    omega

theorem le_octal_sq (ds : Text) : Nat.ofDigitChars 10 ds 0 ≤ Nat.ofDigitChars 8 ds 0 * Nat.ofDigitChars 8 ds 0 := by
  induction ds using List.reverseRecOn with
  | nil => exact le_rfl
  | append_singleton ds c ih =>
    rw [ofDigitChars_concat, ofDigitChars_concat]
    generalize c.toNat - '0'.toNat = d
    have hd : d ≤ d * d := Nat.le_mul_self d
    nlinarith

theorem octal_of_small {ds : Text} (hds : ∀ c ∈ ds, c.isDigit) (h : Nat.ofDigitChars 10 ds 0 < 8) :
    (∀ c ∈ ds, c.toNat < '0'.toNat + 8) ∧ Nat.ofDigitChars 8 ds 0 = Nat.ofDigitChars 10 ds 0 := by
  induction ds using List.reverseRecOn with
  | nil => exact ⟨List.forall_mem_nil _, rfl⟩
  | append_singleton ds c ih =>
    obtain ⟨hds, hc⟩ := List.forall_mem_append.mp hds
    rw [ofDigitChars_concat] at h
    obtain ⟨hall, heq⟩ := ih hds (by omega)
    rw [ofDigitChars_concat, ofDigitChars_concat, heq]
    have hzero : '0'.toNat = 48 := rfl
    refine ⟨List.forall_mem_append.mpr ⟨hall, List.forall_mem_singleton.mpr (by omega)⟩, by omega⟩

theorem small_of_octal {ds : Text} (hds : ∀ c ∈ ds, c.toNat < '0'.toNat + 8)
    (h : Nat.ofDigitChars 8 ds 0 = Nat.ofDigitChars 10 ds 0) : Nat.ofDigitChars 10 ds 0 < 8 := by
  rcases List.eq_nil_or_concat' ds with rfl | ⟨ds, c, rfl⟩
  · exact (by decide : (0 : ℕ) < 8)
  · have hc := (List.forall_mem_append.mp hds).2 c List.mem_cons_self
    have hle := octal_le ds
    rw [ofDigitChars_concat, ofDigitChars_concat] at h
    rw [ofDigitChars_concat]
    have hzero : '0'.toNat = 48 := rfl
    omega

theorem toNat_of_isDigit {c : Char} (hc : c.isDigit) : c.toNat < '0'.toNat + 10 := by
  rw [Char.isDigit, Bool.and_eq_true, decide_eq_true_iff, decide_eq_true_iff] at hc
  have hle : c.val.toNat ≤ '9'.val.toNat := UInt32.le_iff_toNat_le.mp hc.2
  exact Nat.lt_succ_of_le hle

/-- Whether the base gives the decimal value. -/
theorem parseInt_iff {ds : Text} (hds : ∀ c ∈ ds, c.isDigit) (hne : ds ≠ []) :
    parseInt (if ds.head? = some '0' ∧ 1 < ds.length then 8 else 10) ds = some (Nat.ofDigitChars 10 ds 0) ↔
      Nat.ofDigitChars 10 ds 0 < 2 ^ 63 ∧ (ds.head? = some '0' → 1 < ds.length → Nat.ofDigitChars 10 ds 0 < 8) := by
  rw [parseInt]
  by_cases hoctal : ds.head? = some '0' ∧ 1 < ds.length
  · rw [if_pos hoctal]
    constructor
    · intro h
      split_ifs at h with hok
      obtain ⟨_, hdigits, hlt⟩ := hok
      have heq := Option.some.inj h
      exact ⟨heq ▸ hlt, fun _ _ => small_of_octal (fun c hc => (hdigits c hc).2) heq⟩
    · rintro ⟨_, hsmall⟩
      obtain ⟨hdigits, heq⟩ := octal_of_small hds (hsmall hoctal.1 hoctal.2)
      have hlt : Nat.ofDigitChars 8 ds 0 < 2 ^ 63 := heq ▸ (hsmall hoctal.1 hoctal.2).trans (by decide)
      rw [if_pos ⟨hne, fun c hc => ⟨hds c hc, hdigits c hc⟩, hlt⟩, heq]
  · rw [if_neg hoctal]
    constructor
    · intro h
      split_ifs at h with hok
      exact ⟨hok.2.2, fun hhead hlength => absurd ⟨hhead, hlength⟩ hoctal⟩
    · rintro ⟨hlt, _⟩
      rw [if_pos ⟨hne, fun c hc => ⟨hds c hc, toNat_of_isDigit (hds c hc)⟩, hlt⟩]

namespace Plain

variable (d : Plain)

theorem point_not_mem {ds : Text} (hds : ∀ c ∈ ds, c.isDigit) : '.' ∉ ds := fun h => absurd (hds '.' h) (by decide)

/-- The literal of a whole number. -/
theorem literal_whole_iff (h : d.decimals = none) : d.literal = some d.value ↔ d.Kept := by
  obtain ⟨hunsigned, hmantissa, hne, _⟩ := d.whole_text h
  have hvalue : d.value = .int ((if d.neg then -1 else 1) * d.mantissa) := by rw [value, h]
  have hnumber : newNumber d.unsigned =
      (parseInt (if d.whole.head? = some '0' ∧ 1 < d.whole.length then 8 else 10) d.whole).map fun n : ℕ => .int n := by
    rw [hunsigned, newNumber, if_neg (point_not_mem d.whole_digits)]
  have hkept : d.Kept ↔ parseInt (if d.whole.head? = some '0' ∧ 1 < d.whole.length then 8 else 10) d.whole = some d.mantissa := by
    rw [hmantissa, parseInt_iff d.whole_digits hne, Kept, h, hmantissa]
  rw [hkept, literal, hnumber, hvalue]
  cases hparse : parseInt (if d.whole.head? = some '0' ∧ 1 < d.whole.length then 8 else 10) d.whole with
  | none => split_ifs <;> simp
  | some n =>
    split_ifs
    · show some (Value.int (-n)) = _ ↔ _
      simp
    · simp

theorem nearest_unsigned {ds : Text} (h : d.decimals = some ds) : nearest d.unsigned = Float64.nearest d.mantissa (10 ^ ds.length) := by
  have hwhole : ∀ c ∈ d.whole, decide (c ≠ '.') = true := fun c hc =>
    decide_eq_true (ne_of_isDigit (d.whole_digits c hc) rfl)
  rw [nearest, unsigned, mantissa, h]
  show Float64.nearest (Nat.ofDigitChars 10 (List.takeWhile _ (d.whole ++ '.' :: ds) ++ (List.dropWhile _ (d.whole ++ '.' :: ds)).tail) 0)
    (10 ^ (List.dropWhile _ (d.whole ++ '.' :: ds)).tail.length) = _
  rw [List.takeWhile_append_of_pos hwhole, List.dropWhile_append_of_pos hwhole, List.takeWhile_cons_of_neg (by decide),
    List.dropWhile_cons_of_neg (by decide), List.append_nil, List.tail_cons, Option.getD_some]

/-- The literal of a number with decimals. -/
theorem literal_decimals {ds : Text} (h : d.decimals = some ds) (hrange : parseFloat d.text) : d.literal = some d.value := by
  have hpoint : '.' ∈ d.unsigned := by
    rw [unsigned, h]
    exact List.mem_append_right _ List.mem_cons_self
  have hnumber : newNumber d.unsigned = some (.float false (Float64.nearest d.mantissa (10 ^ ds.length))) := by
    rw [newNumber, if_pos hpoint, d.parseFloat_unsigned, if_pos hrange, d.nearest_unsigned h]
  rw [literal, hnumber, value, h]
  split_ifs with hneg
  · rw [hneg]
    rfl
  · rw [Bool.not_eq_true] at hneg
    rw [hneg]

/-- A literal is a number to `ParseFloat`. -/
theorem parseFloat_of_literal {x : Value} (h : d.literal = some x) : parseFloat d.text ∧ x.number.isSome := by
  have hnumber : ∃ y, newNumber d.unsigned = some y ∧ (x = y ∨ y.negate = some x) := by
    rw [literal] at h
    split_ifs at h
    · obtain ⟨y, hy, hx⟩ := Option.bind_eq_some_iff.mp h
      exact ⟨y, hy, .inr hx⟩
    · exact ⟨x, h, .inl rfl⟩
  obtain ⟨y, hy, hxy⟩ := hnumber
  rw [newNumber] at hy
  cases hds : d.decimals with
  | none =>
    obtain ⟨hunsigned, hmantissa, hne, hscale⟩ := d.whole_text hds
    rw [hunsigned, if_neg (point_not_mem d.whole_digits)] at hy
    obtain ⟨n, hn, rfl⟩ := Option.map_eq_some_iff.mp hy
    have hlt : Nat.ofDigitChars 10 d.whole 0 < 2 ^ 126 := by
      rw [parseInt] at hn
      split_ifs at hn with hoctal hok hok
      · calc Nat.ofDigitChars 10 d.whole 0 ≤ Nat.ofDigitChars 8 d.whole 0 * Nat.ofDigitChars 8 d.whole 0 := le_octal_sq d.whole
          _ < 2 ^ 63 * 2 ^ 63 := Nat.mul_lt_mul'' hok.2.2 hok.2.2
      · exact hok.2.2.trans (by decide)
    refine ⟨?_, ?_⟩
    · rw [d.parseFloat_text, hscale, hmantissa]
      exact inRange_of_lt hlt
    · rcases hxy with rfl | hxy
      · rfl
      · cases hxy
        rfl
  | some ds =>
    have hpoint : '.' ∈ d.unsigned := by
      rw [unsigned, hds]
      exact List.mem_append_right _ List.mem_cons_self
    rw [if_pos hpoint, d.parseFloat_unsigned] at hy
    split_ifs at hy with hrange
    cases hy
    refine ⟨hrange, ?_⟩
    rcases hxy with rfl | hxy
    · rfl
    · cases hxy
      rfl

end Plain

namespace Plain

variable (d : Plain)

theorem not_minus (cs : Text) : d.unsigned ≠ '-' :: cs := by
  obtain ⟨c, cs', htext, hc⟩ := d.head_unsigned
  rw [htext]
  intro heq
  obtain ⟨rfl, _⟩ := List.cons.inj heq
  rcases hc with hc | hc
  · exact absurd hc (by decide)
  · exact absurd hc (by decide)

theorem unsigned_inj {d d' : Plain} (h : d.unsigned = d'.unsigned) : d.whole = d'.whole ∧ d.decimals = d'.decimals := by
  have hdigits := congrArg floatDigits h
  rw [floatDigits_unsigned, floatDigits_unsigned] at hdigits
  obtain ⟨hwhole, hdecimals⟩ := Prod.mk.inj hdigits
  have hgetD := (Prod.mk.inj hdecimals).1
  refine ⟨hwhole, ?_⟩
  rw [unsigned, unsigned, hwhole] at h
  have hpoint := List.append_cancel_left h
  generalize d.decimals = decimals at *
  generalize d'.decimals = decimals' at *
  cases decimals with
  | none =>
    cases decimals' with
    | none => rfl
    | some ds' => cases hpoint
  | some ds =>
    cases decimals' with
    | none => cases hpoint
    | some ds' => exact congrArg some hgetD

theorem text_inj {d d' : Plain} (h : d.text = d'.text) : d = d' := by
  have hneg : d.neg = d'.neg ∧ d.unsigned = d'.unsigned := by
    rw [text, text] at h
    cases hd : d.neg <;> cases hd' : d'.neg <;> rw [hd, hd'] at h
    · exact ⟨rfl, h⟩
    · exact absurd h (d.not_minus _)
    · exact absurd h.symm (d'.not_minus _)
    · exact ⟨rfl, (List.cons.inj h).2⟩
  obtain ⟨hwhole, hdecimals⟩ := unsigned_inj hneg.2
  obtain ⟨neg, whole, decimals, _, _⟩ := d
  obtain ⟨neg', whole', decimals', _, _⟩ := d'
  obtain rfl : neg = neg' := hneg.1
  obtain rfl : whole = whole' := hwhole
  obtain rfl : decimals = decimals' := hdecimals
  rfl

end Plain

theorem head_toDigits {n : ℕ} (h : (Nat.toDigits 10 n).head? = some '0') : n = 0 := by
  induction n using Nat.strongRecOn with
  | ind n ih =>
    rcases Nat.lt_or_ge n 10 with hlt | hge
    · rw [Nat.toDigits_of_lt_base hlt] at h
      have hdigit : n.digitChar = '0' := Option.some.inj h
      exact Float64.digitChar_inj n hlt 0 (by decide) hdigit
    · rw [Nat.toDigits_of_base_le (by decide) hge, List.head?_append_of_ne_nil _ Nat.toDigits_ne_nil] at h
      have hzero := ih (n / 10) (by omega) h
      omega

/-- The digits of a natural number behind a sign. -/
def Plain.ofNat (neg : Bool) (n : ℕ) : Plain where
  neg := neg
  whole := Nat.toDigits 10 n
  decimals := none
  digits c hc := Float64.isDigit_of_mem_toDigits c (by simpa using hc)
  nonempty := by simp

theorem Plain.mantissa_ofNat (neg : Bool) (n : ℕ) : (ofNat neg n).mantissa = n := by
  show Nat.ofDigitChars 10 (Nat.toDigits 10 n ++ []) 0 = n
  rw [List.append_nil, Nat.ofDigitChars_ten_toDigits]

theorem Plain.kept_ofNat (neg : Bool) {n : ℕ} (hn : n < 2 ^ 63) : (ofNat neg n).Kept := by
  have hmantissa := mantissa_ofNat neg n
  refine ⟨hmantissa.symm ▸ hn, fun hhead _ => ?_⟩
  rw [hmantissa, head_toDigits hhead]
  decide

/-- An integer is written as a whole number. -/
theorem repr_eq_text (i : ℤ) : ∃ neg, (Int.repr i).toList = (Plain.ofNat neg i.natAbs).text ∧ (Plain.ofNat neg i.natAbs).value = .int i := by
  have hvalue : ∀ neg : Bool, (Plain.ofNat neg i.natAbs).value = .int ((if neg then -1 else 1) * (i.natAbs : ℤ)) := by
    intro neg
    rw [Plain.value, Plain.mantissa_ofNat]
    rfl
  rw [Int.repr_eq_if]
  split_ifs with hi
  · refine ⟨false, ?_, ?_⟩
    · rw [Nat.toList_repr]
      have habs : i.toNat = i.natAbs := by omega
      rw [habs]
      exact (List.append_nil _).symm
    · rw [hvalue]
      refine congrArg Value.int ?_
      rw [if_neg Bool.false_ne_true]
      omega
  · refine ⟨true, ?_, ?_⟩
    · have habs : (-i).toNat = i.natAbs := by omega
      rw [String.toList_append, Nat.toList_repr, habs]
      exact (congrArg ('-' :: ·) (List.append_nil _)).symm
    · rw [hvalue]
      refine congrArg Value.int ?_
      rw [if_pos rfl]
      omega

/-! ### Strings -/

theorem escape_cons (c : Char) (v : Text) : escape (c :: v) = (if c = '\'' then ['\\', '\''] else [c]) ++ escape v := by
  have hquote : ['\''] ≠ ([] : Text) := List.cons_ne_nil _ _
  split_ifs with hc
  · rw [hc]
    exact Replace.replaceAll_cons_of_match (s := v) hquote
  · refine Replace.replaceAll_cons_of_no_match fun hp => hc ?_
    exact (List.cons_prefix_cons.mp hp).1.symm

/-- The closing quote is the one that is put there, unless a backslash comes before it. -/
theorem quoted_escape : ∀ (v : Text) (escaped : Bool), quoted '\'' escaped (escape v ++ ['\'']) =
    if (v.getLast?.map fun c => decide (c = '\\')).getD escaped then none else some (escape v ++ ['\''], [])
  | [], escaped => by cases escaped <;> rfl
  | c :: v, escaped => by
    rw [escape_cons]
    by_cases hc : c = '\''
    · have hback : ¬ ('\\' = '\'' ∧ ¬ escaped) := fun h => absurd h.1 (by decide)
      have hquote : ¬ ('\'' = '\'' ∧ ¬ decide ('\\' = '\\')) := by simp
      rw [if_pos hc, List.append_assoc, List.cons_append, List.cons_append, List.nil_append, quoted, if_neg hback, quoted, if_neg hquote,
        decide_eq_false (by decide : ¬ '\'' = '\\'), quoted_escape v false]
      cases v with
      | nil =>
        rw [hc]
        rfl
      | cons d v =>
        rw [List.getLast?_cons_cons]
        obtain ⟨e, he⟩ := List.getLast?_isSome.mpr (List.cons_ne_nil d v) |> Option.isSome_iff_exists.mp
        rw [he]
        show ((if decide (e = '\\') = true then none else _).map _).map _ = if decide (e = '\\') = true then none else _
        split_ifs <;> rfl
    · rw [if_neg hc, List.append_assoc, List.singleton_append, quoted, if_neg fun h => hc h.1, quoted_escape v]
      cases v with
      | nil =>
        show (if decide (c = '\\') = true then none else _).map _ = if decide (c = '\\') = true then none else _
        split_ifs <;> rfl
      | cons d v =>
        rw [List.getLast?_cons_cons]
        obtain ⟨e, he⟩ := List.getLast?_isSome.mpr (List.cons_ne_nil d v) |> Option.isSome_iff_exists.mp
        rw [he]
        show (if decide (e = '\\') = true then none else _).map _ = if decide (e = '\\') = true then none else _
        split_ifs <;> rfl

theorem escape_ne_quote (v cs : Text) : escape v ≠ '\'' :: cs := by
  cases v with
  | nil => exact (List.cons_ne_nil _ _).symm
  | cons c v =>
    rw [escape_cons]
    split_ifs with hc
    · intro h
      exact absurd (List.cons.inj h).1 (by decide)
    · intro h
      exact hc (List.cons.inj h).1

theorem unescape_escape : ∀ v : Text, unescape '\'' (escape v) = v
  | [] => rfl
  | c :: v => by
    rw [escape_cons]
    split_ifs with hc
    · have hmatch : unescape '\'' (['\\', '\''] ++ escape v) = ['\''] ++ unescape '\'' (escape v) :=
        Replace.replaceAll_cons_of_match (List.cons_ne_nil _ _)
      rw [hmatch, unescape_escape v, hc]
      rfl
    · have hno : ¬ ['\\', '\''] <+: c :: escape v := by
        rintro ⟨cs, hcs⟩
        exact escape_ne_quote v cs (List.cons.inj hcs).2.symm
      have hnext : unescape '\'' (c :: escape v) = c :: unescape '\'' (escape v) := Replace.replaceAll_cons_of_no_match hno
      rw [List.singleton_append, hnext, unescape_escape v]

variable {u : Unicode}

theorem singleOrTriple_escape (v : Text) : singleOrTriple (escape v ++ ['\'']) = quoted '\'' false (escape v ++ ['\'']) := by
  rw [singleOrTriple.eq_def]
  split
  · next heq =>
    cases v with
    | nil => cases heq
    | cons c v =>
      obtain ⟨d, ds, hds⟩ : ∃ d ds, escape (c :: v) = d :: ds := by
        rw [escape_cons]
        split_ifs
        · exact ⟨_, _, rfl⟩
        · exact ⟨_, _, rfl⟩
      rw [hds] at heq
      obtain ⟨rfl, _⟩ := List.cons.inj heq
      exact absurd hds (escape_ne_quote _ _)
  · rfl

theorem newString_escape (v : Text) : newString ('\'' :: (escape v ++ ['\''])) = v := by
  have htriple : ¬ (6 ≤ ('\'' :: (escape v ++ ['\''])).length ∧ ('\'' :: (escape v ++ ['\''])).take 3 = ['\'', '\'', '\'']) := by
    rintro ⟨hlength, htake⟩
    cases hv : escape v with
    | nil =>
      rw [hv] at hlength
      exact absurd hlength (by decide)
    | cons c cs =>
      rw [hv] at htake
      have hc : c = '\'' := (List.cons.inj (List.cons.inj htake).2).1
      exact escape_ne_quote v cs (hc ▸ hv)
  rw [newString, if_neg htriple, List.tail_cons, List.dropLast_concat, unescape_escape]

/-- A text between quotes is a string, unless it ends with a backslash. -/
theorem evaluate_quote (v : Text) : evaluate u (quote (escape v)) = if v.getLast? = some '\\' then none else some (.string v) := by
  have hletter : u.letter '\'' = false := u.letter_ascii _ (by decide)
  have hdigit : u.digit '\'' = false := u.digit_ascii _ (by decide)
  have hnext : next u .regexOrToken (quote (escape v)) = emit .string ['\''] .binaryOperator (quoted '\'' false (escape v ++ ['\''])) := by
    rw [quote, List.cons_append, next_of_not_space rfl (by decide), lexToken, if_neg (by decide), if_neg (by decide), hdigit, hletter,
      if_neg (by decide), if_neg (by decide), if_neg (by decide), if_pos rfl, lexSingleOrTripleString, singleOrTriple_escape]
  rw [quoted_escape] at hnext
  have hlast : (v.getLast?.map fun c => decide (c = '\\')).getD false = decide (v.getLast? = some '\\') := by
    cases v.getLast? <;> simp
  rw [hlast] at hnext
  split_ifs with hback
  · rw [decide_eq_true hback, if_pos rfl] at hnext
    rw [evaluate, lexemes_of_stop hnext]
    rfl
  · rw [decide_eq_false hback, if_neg Bool.false_ne_true] at hnext
    have heof : next u .binaryOperator [] = .stop ⟨.eof, []⟩ := rfl
    rw [evaluate, lexemes_of_token hnext, lexemes_of_stop heof]
    exact congrArg (fun s => some (Value.string s)) (newString_escape v)

/-! ### Truth values -/

theorem evaluate_word {c : Char} {cs : Text} {typ : TokenType} (hall : (c :: cs).all Char.isAlpha)
    (hkeyword : keywords.lookup (String.ofList (c :: cs)) = some typ) :
    evaluate u (c :: cs) = valueOf [(⟨typ, c :: cs⟩ : Token).evaluate, ⟨.eof, []⟩] := by
  obtain ⟨hc, hcs⟩ := List.forall_mem_cons.mp (List.all_eq_true.mp hall)
  have hspace : isSpace c = false := not_space_of_isAlpha u hc
  have hvalid : ∀ d ∈ cs, isValidIdent u d = true := by
    intro d hd
    rw [isValidIdent, letter_of_isAlpha (hcs d hd), Bool.or_true, Bool.true_or]
  have hnext : next u .regexOrToken (c :: cs) = .token ⟨typ, c :: cs⟩ .binaryOperator [] := by
    rw [next_of_not_space hspace (ne_of_isAlpha hc rfl), lexToken_letter hc, lexIdentOrKeyword, List.takeWhile_eq_self_iff.mpr hvalid,
      List.dropWhile_eq_nil_iff.mpr hvalid, identOrKeyword, hkeyword]
  have heof : next u .binaryOperator [] = .stop ⟨.eof, []⟩ := rfl
  rw [evaluate, lexemes_of_token hnext, lexemes_of_stop heof]
  rfl

/-- The words of the truth values. -/
theorem evaluate_truth (b : Bool) : evaluate u (if b then "TRUE".toList else "FALSE".toList) = some (.bool b) := by
  have hfalse : evaluate u "FALSE".toList = valueOf [(⟨.false, "FALSE".toList⟩ : Token).evaluate, ⟨.eof, []⟩] :=
    evaluate_word rfl rfl
  have htrue : evaluate u "TRUE".toList = valueOf [(⟨.true, "TRUE".toList⟩ : Token).evaluate, ⟨.eof, []⟩] :=
    evaluate_word rfl rfl
  cases b
  · exact hfalse
  · exact htrue

theorem formatValue_truth (b : Bool) : formatValue (if b then "TRUE".toList else "FALSE".toList) = if b then "TRUE".toList else "FALSE".toList := by
  cases b <;> decide

/-- What is read back of them is a string. -/
theorem formatValue_varValue_bool (b : Bool) : formatValue (varValue (.bool b)) = quote (escape (varValue (.bool b))) := by
  cases b <;> decide

/-! ### What survives -/

theorem evaluate_numeric {x : Value} (h : parseFloat v) : evaluate u v = some x ↔ ∃ d : Plain, v = d.text ∧ d.literal = some x := by
  constructor
  · intro hx
    rcases parseFloat_cases h with ⟨c, cs, hv, hc⟩ | ⟨cs, rfl⟩ | ⟨d, rest, rfl, hrest⟩
    · rcases hv with rfl | rfl
      · rw [(evaluate_name hc cs).1] at hx
        cases hx
      · rw [(evaluate_name hc cs).2] at hx
        cases hx
    · rw [evaluate_plus] at hx
      cases hx
    · rcases hrest with rfl | ⟨e, he, cs, rfl⟩
      · rw [List.append_nil, evaluate_text] at hx
        exact ⟨d, List.append_nil _, hx⟩
      · rw [evaluate_exponent d he] at hx
        cases hx
  · rintro ⟨d, rfl, hx⟩
    rw [evaluate_text, hx]

theorem formatValue_cases (hnum : ¬ parseFloat v) : (∃ b : Bool, v = (if b then "TRUE".toList else "FALSE".toList)) ∨
    v ≠ "TRUE".toList ∧ v ≠ "FALSE".toList ∧ formatValue v = quote (escape v) := by
  by_cases htrue : v = "TRUE".toList
  · exact .inl ⟨true, htrue⟩
  by_cases hfalse : v = "FALSE".toList
  · exact .inl ⟨false, hfalse⟩
  · exact .inr ⟨htrue, hfalse, by rw [formatValue, if_neg hnum, if_neg (not_or.mpr ⟨htrue, hfalse⟩)]⟩

/-- A text is written as a number if it is the text of one. -/
theorem formatted_number_iff {q : ℚ} : (∃ y, evaluate u (formatValue v) = some y ∧ y.number = some q) ↔
    ∃ d : Plain, v = d.text ∧ ∃ y, d.literal = some y ∧ y.number = some q := by
  constructor
  · rintro ⟨y, hy, hq⟩
    by_cases hnum : parseFloat v
    · rw [formatValue, if_pos hnum] at hy
      obtain ⟨d, hd, hliteral⟩ := (evaluate_numeric hnum).mp hy
      exact ⟨d, hd, y, hliteral, hq⟩
    · exfalso
      rcases formatValue_cases hnum with ⟨b, rfl⟩ | ⟨_, _, hquote⟩
      · rw [formatValue_truth, evaluate_truth] at hy
        cases hy
        cases hq
      · rw [hquote, evaluate_quote] at hy
        split_ifs at hy
        cases hy
        cases hq
  · rintro ⟨d, rfl, y, hy, hq⟩
    have hnum := (d.parseFloat_of_literal hy).1
    exact ⟨y, by rw [formatValue, if_pos hnum, evaluate_text, hy], hq⟩

theorem same_iff {x y : Value} {q : ℚ} (hx : x.number = some q) : x.Same y ↔ y.number = some q := by
  cases x with
  | int i => exact ⟨fun h => h.2.trans hx, fun h => ⟨rfl, h.trans hx.symm⟩⟩
  | float neg x => exact ⟨fun h => h.2.trans hx, fun h => ⟨rfl, h.trans hx.symm⟩⟩
  | string s => cases hx
  | bool b => cases hx

namespace Plain

variable (d : Plain)

theorem number_value : ∃ q, d.value.number = some q := by
  rw [value]
  cases d.decimals with
  | none => exact ⟨_, rfl⟩
  | some ds => exact ⟨_, rfl⟩

theorem literal_of_kept (hnum : parseFloat d.text) (hkept : d.Kept) : d.literal = some d.value := by
  cases hds : d.decimals with
  | none => exact (d.literal_whole_iff hds).mpr hkept
  | some ds => exact d.literal_decimals hds hnum

/-- A number comes back exactly when it is kept. -/
theorem kept_iff (u : Unicode) (hliteral : d.literal = some d.value) :
    (∃ y, evaluate u (formatValue (varValue d.value)) = some y ∧ d.value.Same y) ↔ d.Kept := by
  obtain ⟨q, hq⟩ := d.number_value
  have hsame : (∃ y, evaluate u (formatValue (varValue d.value)) = some y ∧ d.value.Same y) ↔
      ∃ d' : Plain, varValue d.value = d'.text ∧ ∃ y, d'.literal = some y ∧ y.number = some q := by
    rw [← formatted_number_iff]
    exact exists_congr fun y => and_congr_right fun _ => same_iff hq
  rw [hsame]
  cases hds : d.decimals with
  | none =>
    have hkept := (d.literal_whole_iff hds).mp hliteral
    have hvalue : d.value = .int ((if d.neg then -1 else 1) * d.mantissa) := by rw [value, hds]
    refine ⟨fun _ => hkept, fun _ => ?_⟩
    rw [hvalue] at hq ⊢
    generalize hi : (if d.neg then -1 else 1) * (d.mantissa : ℤ) = i at *
    obtain ⟨neg, htext, hreads⟩ := repr_eq_text i
    have hlt : i.natAbs < 2 ^ 63 := by
      rw [Kept, hds] at hkept
      have habs : i.natAbs = d.mantissa := by
        rw [← hi]
        split_ifs <;> omega
      rw [habs]
      exact hkept.1
    refine ⟨ofNat neg i.natAbs, htext, .int i, ?_, hq⟩
    rw [((ofNat neg i.natAbs).literal_whole_iff rfl).mpr (kept_ofNat neg hlt), hreads]
  | some ds =>
    rw [Kept, hds]
    dsimp only
    rw [hq]

end Plain

/-- Which trigger values survive. -/
theorem survives_iff (u : Unicode) (v : Text) : Survives u v ↔ Kept v := by
  rw [Survives, Kept]
  by_cases hnum : parseFloat v
  · rw [if_pos hnum, formatValue, if_pos hnum]
    constructor
    · rintro ⟨x, hx, hmeans, hback⟩
      rw [Means, if_pos hnum] at hmeans
      obtain ⟨d, rfl, rfl⟩ := hmeans
      rw [evaluate_text] at hx
      exact ⟨d, rfl, (d.kept_iff u hx).mp hback⟩
    · rintro ⟨d, rfl, hkept⟩
      have hliteral := d.literal_of_kept hnum hkept
      refine ⟨d.value, by rw [evaluate_text, hliteral], ?_, (d.kept_iff u hliteral).mpr hkept⟩
      rw [Means, if_pos hnum]
      exact ⟨d, rfl, rfl⟩
  · rw [if_neg hnum]
    rcases formatValue_cases hnum with ⟨b, rfl⟩ | ⟨htrue, hfalse, hquote⟩
    · rw [formatValue_truth, evaluate_truth]
      constructor
      · rintro ⟨x, hx, _, y, hy, hsame⟩
        obtain rfl := Option.some.inj hx
        rw [formatValue_varValue_bool, evaluate_quote] at hy
        split_ifs at hy
        cases hy
        cases hsame
      · rintro ⟨htrue, hfalse, _⟩
        cases b
        · exact absurd rfl hfalse
        · exact absurd rfl htrue
    · have hmeans : ∀ x, Means v x ↔ x = .string v := fun x => by rw [Means, if_neg hnum, if_neg htrue, if_neg hfalse]
      rw [hquote, evaluate_quote]
      constructor
      · rintro ⟨x, hx, _⟩
        split_ifs at hx with hlast
        exact ⟨htrue, hfalse, hlast⟩
      · rintro ⟨_, _, hlast⟩
        rw [if_neg hlast]
        refine ⟨.string v, rfl, (hmeans _).mpr rfl, .string v, ?_, rfl⟩
        rw [varValue, hquote, evaluate_quote, if_neg hlast]

end Numbers

end Kapacitor
end Chronograf
