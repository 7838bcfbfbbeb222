/-
# Durations as texts

`ParseDuration` of the InfluxQL parser, and what it makes of the durations that
`shortDur` writes: Go writes what is less than a millisecond in units that the
parser does not know, and fractions of the others.

Key definitions: `parseDuration`, `Printable`.
Key theorem: `parseDuration_shortDur`.
-/
import Chronograf.Influx.Convert
import Mathlib.Data.List.TakeWhile
import Mathlib.Tactic.IntervalCases

namespace Chronograf
namespace Influx

open Influxql

/-! ### Reading -/

/-- The value of an `int64` after an operation. -/
def wrap64 (n : ℤ) : ℤ := Int.bmod n (2 ^ 64)

/-- `strconv.ParseInt` of digits. -/
def parseNumber (digits : List Char) : Option ℤ :=
  if digits = [] then none
  else if Nat.ofDigitChars 10 digits 0 < 2 ^ 63 then some (Nat.ofDigitChars 10 digits 0) else none

def unitOf : Char → Option ℤ
  | 'u' | 'µ' => some microsecond
  | 'm' => some minute
  | 's' => some second
  | 'h' => some hour
  | 'd' => some (24 * hour)
  | 'w' => some (7 * 24 * hour)
  | _ => none

/-- The parsing loop, from the duration so far and the digits of a number. -/
def parseUnits (d : ℤ) (digits : List Char) : List Char → Option ℤ
  | [] => if digits = [] then some d else none
  | 'm' :: 's' :: cs => do
    let n ← parseNumber digits
    parseUnits (wrap64 (d + n * millisecond)) [] cs
  | c :: cs =>
    if c.isDigit then parseUnits d (digits ++ [c]) cs
    else do
      let n ← parseNumber digits
      let unit ← unitOf c
      parseUnits (wrap64 (d + n * unit)) [] cs

def parseDuration (s : String) : Option ℤ :=
  if s.utf8ByteSize < 2 then none
  else
    match s.toList with
    | '-' :: cs => (parseUnits 0 [] cs).map fun d => wrap64 (-d)
    | cs => do
      let d ← parseUnits 0 [] cs
      if d < 0 then none else some d

section Units

variable {d n : ℤ} {m : ℕ} {c : Char} {digits cs : List Char}

theorem wrap64_of_bounds (hl : -2 ^ 63 ≤ n) (hu : n < 2 ^ 63) : wrap64 n = n := by
  rw [wrap64, Int.bmod_eq_of_le] <;> omega

theorem parseUnits_digit (hc : c.isDigit) : parseUnits d digits (c :: cs) = parseUnits d (digits ++ [c]) cs := by
  rw [parseUnits.eq_def]
  split
  · next h => cases h
  · next h =>
    cases h
    exact absurd hc (by decide)
  · next h =>
    cases h
    rw [if_pos hc]

theorem parseUnits_digits : ∀ {ds digits : List Char}, (∀ c ∈ ds, c.isDigit) →
    parseUnits d digits (ds ++ cs) = parseUnits d (digits ++ ds) cs
  | [], digits, _ => by rw [List.nil_append, List.append_nil]
  | c :: ds, digits, h => by
    rw [List.cons_append, parseUnits_digit (h c List.mem_cons_self),
      parseUnits_digits fun x hx => h x (List.mem_cons_of_mem c hx), List.append_assoc, List.singleton_append]

theorem parseNumber_toDigits (hm : m < 2 ^ 63) : parseNumber (Nat.toDigits 10 m) = some (m : ℤ) := by
  rw [parseNumber, if_neg Nat.toDigits_ne_nil, Nat.ofDigitChars_ten_toDigits, if_pos hm]

theorem parseUnits_ms : parseUnits d digits ('m' :: 's' :: cs) =
    (parseNumber digits).bind fun n => parseUnits (wrap64 (d + n * millisecond)) [] cs := rfl

theorem parseUnits_unit (hc : ¬ c.isDigit) (hms : c = 'm' → cs.head? ≠ some 's') : parseUnits d digits (c :: cs) =
    (parseNumber digits).bind fun n => (unitOf c).bind fun unit => parseUnits (wrap64 (d + n * unit)) [] cs := by
  rw [parseUnits.eq_def]
  split
  · next h => cases h
  · next h =>
    cases h
    exact absurd rfl (hms rfl)
  · next h =>
    cases h
    rw [if_neg hc]
    rfl

/-- A number and its unit. -/
theorem parseUnits_number {k : ℤ} (hunit : unitOf c = some k) (hc : ¬ c.isDigit) (hms : c = 'm' → cs.head? ≠ some 's')
    (hm : m < 2 ^ 63) (hl : 0 ≤ d + m * k) (hu : d + m * k < 2 ^ 63) :
    parseUnits d [] (Nat.toDigits 10 m ++ c :: cs) = parseUnits (d + m * k) [] cs := by
  rw [parseUnits_digits Float64.isDigit_of_mem_toDigits, List.nil_append, parseUnits_unit hc hms, parseNumber_toDigits hm, hunit]
  dsimp only [Option.bind_some]
  rw [wrap64_of_bounds (by omega) hu]

/-- What is neither a digit nor a unit is not read. -/
theorem parseUnits_unread (hdigit : ¬ c.isDigit) (hunit : unitOf c = none) (hmem : c ∈ cs) : parseUnits d digits cs = none := by
  fun_induction parseUnits d digits cs with
  | case1 | case2 => cases hmem
  | case3 d digits cs ih =>
    rcases List.mem_cons.mp hmem with rfl | hmem
    · cases hunit
    · rcases List.mem_cons.mp hmem with rfl | hmem
      · cases hunit
      · cases hn : parseNumber digits with
        | none => rfl
        | some n => exact ih n hmem
  | case4 d digits x cs hms hx ih =>
    rcases List.mem_cons.mp hmem with rfl | hmem
    · exact absurd hx hdigit
    · exact ih hmem
  | case5 d digits x cs hms hx ih =>
    cases hn : parseNumber digits with
    | none => rfl
    | some n =>
      rcases List.mem_cons.mp hmem with rfl | hmem
      · rw [hunit]
        rfl
      · cases hu : unitOf x with
        | none => rfl
        | some unit => exact ih n unit hmem

end Units

/-! ### Writing -/

/-- The parser reads what Go writes: whole milliseconds, from a second on whole seconds. -/
def Printable (d : ℤ) : Prop := millisecond ∣ d ∧ (second ≤ d.natAbs → second ∣ d)

instance (d : ℤ) : Decidable (Printable d) := inferInstanceAs (Decidable (_ ∧ _))

section Fractions

variable {u p : ℕ}

theorem digitChar_eq_zero (hu : u < 10) : u.digitChar = '0' ↔ u = 0 := by
  interval_cases u <;> decide

theorem lastDigits_zeros : ∀ {p u : ℕ}, (∀ c ∈ Float64.lastDigits p u, c = '0') ↔ 10 ^ p ∣ u
  | 0, u => iff_of_true (fun _ h => absurd h List.not_mem_nil) (one_dvd u)
  | p + 1, u => by
    have hlast : (u % 10).digitChar = '0' ↔ 10 ∣ u := by
      rw [digitChar_eq_zero (Nat.mod_lt u (by decide)), Nat.dvd_iff_mod_eq_zero]
    rw [Float64.lastDigits, List.forall_mem_append, List.forall_mem_singleton, lastDigits_zeros, hlast, pow_succ, mul_comm]
    constructor
    · rintro ⟨hrest, hten⟩
      rw [← Nat.mul_div_cancel' hten]
      exact Nat.mul_dvd_mul_left 10 hrest
    · intro h
      have hten : 10 ∣ u := dvd_of_mul_right_dvd h
      rw [← Nat.mul_div_cancel' hten] at h
      exact ⟨Nat.dvd_of_mul_dvd_mul_left (by decide) h, hten⟩

/-- There is a fraction unless the number is whole. -/
theorem fmtFrac_of_dvd (h : 10 ^ p ∣ u) : fmtFrac u p = [] := by
  have hnil : (Float64.lastDigits p u).reverse.dropWhile (· = '0') = [] :=
    List.dropWhile_eq_nil_iff.mpr fun c hc => decide_eq_true (lastDigits_zeros.mpr h c (List.mem_reverse.mp hc))
  rw [fmtFrac, hnil]
  rfl

theorem dot_mem_fmtFrac (h : ¬ 10 ^ p ∣ u) : '.' ∈ fmtFrac u p := by
  unfold fmtFrac
  split
  · next hnil =>
    refine absurd (lastDigits_zeros.mp fun c hc => ?_) h
    exact of_decide_eq_true (List.dropWhile_eq_nil_iff.mp (List.reverse_eq_nil_iff.mp hnil) c (List.mem_reverse.mpr hc))
  · exact List.mem_cons_self

end Fractions

section Suffixes

variable {a b c : Char} {t s suffix : List Char} {m : ℕ}

theorem dropZero_append (hlen : suffix.length = 3) : dropZero suffix (t ++ suffix) = t ++ suffix.take 1 := by
  rw [dropZero, if_pos (List.suffix_append t suffix), List.take_append, List.length_append, hlen]
  congr 1
  · exact List.take_of_length_le (by omega)
  · congr 1
    omega

theorem dropZero_number : dropZero [a, '0', b] (t ++ [a] ++ Nat.toDigits 10 0 ++ [b]) = t ++ [a] := by
  have happend : t ++ [a] ++ Nat.toDigits 10 0 ++ [b] = t ++ [a, '0', b] := by simp
  rw [happend]
  exact dropZero_append rfl

/-- Only characters of the suffix are dropped. -/
theorem mem_dropZero (hlen : suffix.length = 3) (hc : c ∉ suffix) (hmem : c ∈ s) : c ∈ dropZero suffix s := by
  by_cases h : suffix <:+ s
  · obtain ⟨t, rfl⟩ := h
    rw [dropZero_append hlen]
    exact List.mem_append_left _ ((List.mem_append.mp hmem).resolve_right hc)
  · rw [dropZero, if_neg h]
    exact hmem

/-- A number other than zero does not look like it. -/
theorem not_suffix_number (ha : ¬ a.isDigit) (hm : m ≠ 0) : ¬ [a, '0', b] <:+ t ++ Nat.toDigits 10 m ++ [c] := by
  intro h
  have hcut : [a, '0'] <:+ t ++ Nat.toDigits 10 m := by
    obtain ⟨r, hr⟩ := h
    have hr' : (r ++ [a, '0']) ++ [b] = t ++ Nat.toDigits 10 m ++ [c] := by
      rw [← hr, List.append_assoc]
      rfl
    exact ⟨r, (List.append_inj' hr' rfl).1⟩
  have hdigits : ∀ x ∈ Nat.toDigits 10 m, x.isDigit := Float64.isDigit_of_mem_toDigits
  by_cases hsmall : m < 10
  · rw [Nat.toDigits_of_lt_base hsmall] at hcut
    obtain ⟨r, hr⟩ := hcut
    have hr' : (r ++ [a]) ++ ['0'] = t ++ [m.digitChar] := by
      rw [← hr, List.append_assoc]
      rfl
    have hzero := List.cons.inj (List.append_inj' hr' rfl).2
    exact hm ((digitChar_eq_zero hsmall).mp hzero.1.symm)
  · have hlen : 2 ≤ (Nat.toDigits 10 m).length := by
      by_contra hshort
      have hlt : (Nat.toDigits 10 m).length ≤ 1 := by omega
      exact hsmall ((Nat.length_toDigits_le_iff (by decide) (by decide)).mp hlt)
    have hin := List.suffix_of_suffix_length_le hcut (List.suffix_append t _) hlen
    exact ha (hdigits a (hin.subset List.mem_cons_self))

theorem not_suffix_last (hbc : b ≠ c) : ¬ [a, '0', b] <:+ t ++ [c] := by
  rintro ⟨r, hr⟩
  have hr' : (r ++ [a, '0']) ++ [b] = t ++ [c] := by
    rw [← hr, List.append_assoc]
    rfl
  exact hbc (List.cons.inj (List.append_inj' hr' rfl).2).1

theorem dropZero_of_not (h : ¬ suffix <:+ s) : dropZero suffix s = s := if_neg h

end Suffixes

/-! ### Round trip -/

/-- The text of a duration after its sign. -/
def unsignedDur (u : ℕ) : List Char := dropZero ['h', '0', 'm'] (dropZero ['m', '0', 's'] (durationString u))

section Unsigned

variable {u : ℕ}

theorem durationString_zero : durationString (0 : ℕ) = ['0', 's'] := rfl

theorem durationString_small (h0 : u ≠ 0) (hu : u < 1000) : durationString u = Nat.toDigits 10 u ++ ['n', 's'] := by
  unfold durationString
  dsimp only
  rw [Int.natAbs_natCast, if_neg h0, if_pos hu, if_neg (Int.not_lt.mpr (Int.natCast_nonneg u)), List.nil_append]

theorem durationString_micro (hl : 1000 ≤ u) (hu : u < 1000000) :
    durationString u = Nat.toDigits 10 (u / 1000) ++ fmtFrac u 3 ++ ['µ', 's'] := by
  unfold durationString
  dsimp only
  rw [Int.natAbs_natCast, if_neg (by omega), if_neg (by omega), if_pos hu, if_neg (Int.not_lt.mpr (Int.natCast_nonneg u)),
    List.nil_append]

theorem durationString_milli (hl : 1000000 ≤ u) (hu : u < 1000000000) :
    durationString u = Nat.toDigits 10 (u / 1000000) ++ fmtFrac u 6 ++ ['m', 's'] := by
  unfold durationString
  dsimp only
  rw [Int.natAbs_natCast, if_neg (by omega), if_neg (by omega), if_neg (by omega), if_pos hu,
    if_neg (Int.not_lt.mpr (Int.natCast_nonneg u)), List.nil_append]

/-- Hours and minutes are left out at the front. -/
def part (n m : ℕ) (c : Char) : List Char := if n = 0 then [] else Nat.toDigits 10 m ++ [c]

theorem part_of_ne {n : ℕ} (hn : n ≠ 0) (m : ℕ) (c : Char) : part n m c = Nat.toDigits 10 m ++ [c] := if_neg hn

theorem durationString_large (hl : 1000000000 ≤ u) : durationString u =
    part (u / 1000000000 / 3600) (u / 1000000000 / 3600) 'h' ++ part (u / 1000000000 / 60) (u / 1000000000 / 60 % 60) 'm' ++
      Nat.toDigits 10 (u / 1000000000 % 60) ++ fmtFrac u 9 ++ ['s'] := by
  unfold durationString
  dsimp only
  rw [Int.natAbs_natCast, if_neg (by omega), if_neg (by omega), if_neg (by omega), if_neg (by omega),
    if_neg (Int.not_lt.mpr (Int.natCast_nonneg u)), List.nil_append]
  rfl

theorem mem_unsignedDur {c : Char} (hc : c ∉ ['h', '0', 'm', 's']) (h : c ∈ durationString u) : c ∈ unsignedDur u := by
  simp only [List.mem_cons, List.not_mem_nil, or_false, not_or] at hc
  obtain ⟨hh, h0, hm, hs⟩ := hc
  refine mem_dropZero rfl (by simp [hh, h0, hm]) (mem_dropZero rfl (by simp [hm, h0, hs]) h)

/-- Texts that do not end in `s` with zero before it stay. -/
theorem unsignedDur_of_not {s : List Char} (hs : durationString u = s ++ ['s']) (hzero : ¬ ['m', '0', 's'] <:+ s ++ ['s']) :
    unsignedDur u = s ++ ['s'] := by
  rw [unsignedDur, hs, dropZero_of_not hzero, dropZero_of_not (not_suffix_last (by decide))]

/-! What is not printable. -/

theorem parseUnits_unprintable (h : ¬ (1000000 ∣ u ∧ (1000000000 ≤ u → 1000000000 ∣ u))) :
    parseUnits 0 [] (unsignedDur u) = none := by
  have hu : u ≠ 0 := by
    rintro rfl
    exact h ⟨dvd_zero _, fun _ => dvd_zero _⟩
  have hdot : '.' ∈ durationString u → parseUnits 0 [] (unsignedDur u) = none := fun hmem =>
    parseUnits_unread (c := '.') (by decide) rfl (mem_unsignedDur (by decide) hmem)
  by_cases h1 : u < 1000
  · refine parseUnits_unread (c := 'n') (by decide) rfl (mem_unsignedDur (by decide) ?_)
    rw [durationString_small hu h1]
    exact List.mem_append_right _ List.mem_cons_self
  by_cases h2 : u < 1000000
  · have hstring := durationString_micro (by omega) h2
    by_cases hwhole : 10 ^ 3 ∣ u
    · rw [fmtFrac_of_dvd hwhole, List.append_nil] at hstring
      have hlast : ¬ ['m', '0', 's'] <:+ (Nat.toDigits 10 (u / 1000) ++ ['µ']) ++ ['s'] := by
        rintro ⟨r, hr⟩
        have hr' : (r ++ ['m']) ++ ['0', 's'] = Nat.toDigits 10 (u / 1000) ++ ['µ', 's'] := by
          simpa using hr
        exact absurd (List.append_inj' hr' rfl).2 (by decide)
      rw [unsignedDur_of_not (by rw [hstring, List.append_assoc]; rfl) hlast, List.append_assoc,
        show ['µ'] ++ ['s'] = 'µ' :: ['s'] from rfl,
        parseUnits_number (k := microsecond) rfl (by decide) (by decide) (by omega) (by unfold microsecond; omega)
          (by unfold microsecond; omega)]
      rfl
    · exact hdot (by rw [hstring]; exact List.mem_append_left _ (List.mem_append_right _ (dot_mem_fmtFrac hwhole)))
  by_cases h3 : u < 1000000000
  · refine hdot ?_
    rw [durationString_milli (by omega) h3]
    exact List.mem_append_left _ (List.mem_append_right _ (dot_mem_fmtFrac fun hdvd => h ⟨hdvd, fun hge => absurd h3 (by omega)⟩))
  · refine hdot ?_
    rw [durationString_large (by omega)]
    refine List.mem_append_left _ (List.mem_append_right _ (dot_mem_fmtFrac fun hdvd => h ⟨?_, fun _ => hdvd⟩))
    exact dvd_trans (by decide) hdvd

/-! What is printable. -/

theorem parseUnits_part {n m : ℕ} {c : Char} {cs : List Char} {d k : ℤ} (hnm : n = 0 → m = 0) (hunit : unitOf c = some k)
    (hc : ¬ c.isDigit) (hms : c = 'm' → cs.head? ≠ some 's') (hm : m < 2 ^ 63) (hl : 0 ≤ d + m * k)
    (hu : d + m * k < 2 ^ 63) : parseUnits d [] (part n m c ++ cs) = parseUnits (d + m * k) [] cs := by
  by_cases hn : n = 0
  · rw [part, if_pos hn, List.nil_append, hnm hn, Nat.cast_zero, zero_mul, add_zero]
  · rw [part, if_neg hn, List.append_assoc]
    exact parseUnits_number hunit hc hms hm hl hu

theorem head_toDigits_ne (m : ℕ) (cs : List Char) : (Nat.toDigits 10 m ++ cs).head? ≠ some 's' := by
  obtain ⟨c, ds, hds⟩ := List.exists_cons_of_ne_nil (Nat.toDigits_ne_nil (b := 10) (n := m))
  have hdigit : c.isDigit := Float64.isDigit_of_mem_toDigits c (hds ▸ List.mem_cons_self)
  rw [hds]
  rintro ⟨⟩
  exact absurd hdigit (by decide)

/-- The text of whole seconds. -/
theorem unsignedDur_seconds {secs : ℕ} (hsecs : secs ≠ 0) : unsignedDur (secs * 1000000000) =
    part (secs / 3600) (secs / 3600) 'h' ++
      if secs % 60 ≠ 0 then part (secs / 60) (secs / 60 % 60) 'm' ++ (Nat.toDigits 10 (secs % 60) ++ ['s'])
      else if secs / 60 % 60 ≠ 0 then Nat.toDigits 10 (secs / 60 % 60) ++ ['m'] else [] := by
  have hstring := durationString_large (u := secs * 1000000000) (by omega)
  rw [Nat.mul_div_cancel _ (by decide), fmtFrac_of_dvd (show 10 ^ 9 ∣ secs * 1000000000 from dvd_mul_left _ secs), List.append_nil] at hstring
  by_cases hs : secs % 60 = 0
  · rw [if_neg (not_not.mpr hs)]
    have hmin : secs / 60 ≠ 0 := by omega
    rw [hs, part_of_ne hmin, ← List.append_assoc] at hstring
    rw [unsignedDur, hstring, dropZero_number]
    by_cases hm : secs / 60 % 60 = 0
    · have hhour : secs / 3600 ≠ 0 := by omega
      rw [hm, if_neg (not_not.mpr rfl), part_of_ne hhour, List.append_nil]
      exact dropZero_number
    · rw [if_pos hm, dropZero_of_not (not_suffix_number (by decide) hm), List.append_assoc]
  · rw [if_pos hs, unsignedDur_of_not hstring (not_suffix_number (by decide) hs)]
    simp

theorem parseUnits_seconds {secs : ℕ} (hsecs : secs ≠ 0) (hbound : secs * 1000000000 < 2 ^ 63) :
    parseUnits 0 [] (unsignedDur (secs * 1000000000)) = some ((secs * 1000000000 : ℕ) : ℤ) := by
  rw [unsignedDur_seconds hsecs, parseUnits_part (k := 3600000000000) (fun h => h) rfl (by decide) (by simp) (by omega)
    (by omega) (by omega), zero_add]
  by_cases hs : secs % 60 = 0
  · rw [if_neg (not_not.mpr hs)]
    by_cases hm : secs / 60 % 60 = 0
    · rw [if_neg (not_not.mpr hm)]
      exact congrArg some (by omega)
    · rw [if_pos hm, parseUnits_number (k := 60000000000) rfl (by decide) (by simp) (by omega) (by omega) (by omega)]
      exact congrArg some (by omega)
  · rw [if_pos hs, parseUnits_part (k := 60000000000) (by omega) rfl (by decide) (fun _ => head_toDigits_ne _ _) (by omega)
      (by omega) (by omega), parseUnits_number (k := 1000000000) rfl (by decide) (by decide) (by omega) (by omega) (by omega)]
    exact congrArg some (by omega)

theorem parseUnits_milliseconds {ms : ℕ} (hms : ms ≠ 0) (hlt : ms < 1000) :
    parseUnits 0 [] (unsignedDur (ms * 1000000)) = some ((ms * 1000000 : ℕ) : ℤ) := by
  have hstring := durationString_milli (u := ms * 1000000) (by omega) (by omega)
  rw [Nat.mul_div_cancel _ (by decide), fmtFrac_of_dvd (show 10 ^ 6 ∣ ms * 1000000 from dvd_mul_left _ ms), List.append_nil] at hstring
  have hlast : ¬ ['m', '0', 's'] <:+ (Nat.toDigits 10 ms ++ ['m']) ++ ['s'] := by
    rintro ⟨r, hr⟩
    have hr' : (r ++ ['m']) ++ ['0', 's'] = Nat.toDigits 10 ms ++ ['m', 's'] := by
      simpa using hr
    exact absurd (List.append_inj' hr' rfl).2 (by decide)
  rw [unsignedDur_of_not (by rw [hstring, List.append_assoc]; rfl) hlast, List.append_assoc,
    show ['m'] ++ ['s'] = ['m', 's'] from rfl, parseUnits_digits Float64.isDigit_of_mem_toDigits, List.nil_append, parseUnits_ms,
    parseNumber_toDigits (by omega), Option.bind_some, show millisecond = 1000000 from rfl,
    wrap64_of_bounds (by omega) (by omega)]
  exact congrArg some (by omega)

theorem parseUnits_printable (h : 1000000 ∣ u ∧ (1000000000 ≤ u → 1000000000 ∣ u)) (hu : u < 2 ^ 63) :
    parseUnits 0 [] (unsignedDur u) = some (u : ℤ) := by
  obtain ⟨hms, hsecs⟩ := h
  rcases eq_or_ne u 0 with rfl | h0
  · decide +kernel
  by_cases hlarge : 1000000000 ≤ u
  · obtain ⟨secs, rfl⟩ := hsecs hlarge
    rw [mul_comm]
    exact parseUnits_seconds (by omega) (by omega)
  · obtain ⟨ms, rfl⟩ := hms
    rw [mul_comm]
    exact parseUnits_milliseconds (by omega) (by omega)

/-! The sign. -/

theorem durationString_neg (hu : u ≠ 0) : durationString (-(u : ℤ)) = '-' :: durationString u := by
  have hneg : -(u : ℤ) < 0 := by omega
  have hpos : ¬ (u : ℤ) < 0 := by omega
  unfold durationString
  simp only [Int.natAbs_neg, Int.natAbs_natCast, if_neg hu, if_pos hneg, if_neg hpos]
  split_ifs <;> rfl

theorem dropZero_cons {c : Char} {suffix s : List Char} (hlen : suffix.length = 3) (hc : c ∉ suffix) :
    dropZero suffix (c :: s) = c :: dropZero suffix s := by
  have hiff : suffix <:+ c :: s ↔ suffix <:+ s := by
    rw [List.suffix_cons_iff]
    exact or_iff_right fun h => hc (h ▸ List.mem_cons_self)
  by_cases h : suffix <:+ s
  · obtain ⟨t, rfl⟩ := h
    rw [dropZero_append hlen, ← List.cons_append, dropZero_append hlen, List.cons_append]
  · rw [dropZero_of_not h, dropZero_of_not (mt hiff.mp h)]

theorem shortDur_natCast (u : ℕ) : shortDur u = String.ofList (unsignedDur u) := rfl

theorem shortDur_neg (hu : u ≠ 0) : shortDur (-(u : ℤ)) = String.ofList ('-' :: unsignedDur u) := by
  rw [shortDur, durationString_neg hu, dropZero_cons rfl (by decide), dropZero_cons rfl (by decide)]
  rfl

theorem minus_not_mem_toDigits (m : ℕ) : '-' ∉ Nat.toDigits 10 m :=
  fun h => absurd (Float64.isDigit_of_mem_toDigits _ h) (by decide)

theorem minus_not_mem_part (n m : ℕ) {c : Char} (hc : c ≠ '-') : '-' ∉ part n m c := by
  unfold part
  split_ifs
  · exact List.not_mem_nil
  · simp [minus_not_mem_toDigits m, hc.symm]

theorem minus_not_mem_fmtFrac (u : ℕ) : ∀ p, '-' ∉ fmtFrac u p := by
  have hlast : ∀ p u, '-' ∉ Float64.lastDigits p u := by
    intro p
    induction p with
    | zero => exact fun _ => List.not_mem_nil
    | succ p ih =>
      intro u
      rw [Float64.lastDigits, List.mem_append, not_or, List.mem_singleton]
      refine ⟨ih _, fun h => ?_⟩
      have hlt : u % 10 < 10 := Nat.mod_lt u (by decide)
      rw [← List.mem_singleton, ← Nat.toDigits_of_lt_base hlt] at h
      exact minus_not_mem_toDigits _ h
  intro p
  unfold fmtFrac
  split
  · exact List.not_mem_nil
  · rw [List.mem_cons, not_or]
    refine ⟨by decide, fun h => hlast p u ?_⟩
    exact List.mem_reverse.mp ((List.dropWhile_sublist _).subset (List.mem_reverse.mp h))

/-- Only the sign is a minus. -/
theorem minus_not_mem_unsignedDur : '-' ∉ unsignedDur u := by
  have hdrop : ∀ suffix s : List Char, '-' ∉ s → '-' ∉ dropZero suffix s := by
    intro suffix s hs
    unfold dropZero
    split_ifs
    · exact fun h => hs (List.mem_of_mem_take h)
    · exact hs
  refine hdrop _ _ (hdrop _ _ ?_)
  rcases eq_or_ne u 0 with rfl | h0
  · decide
  by_cases h1 : u < 1000
  · rw [durationString_small h0 h1]
    simp [minus_not_mem_toDigits]
  by_cases h2 : u < 1000000
  · rw [durationString_micro (by omega) h2]
    simp [minus_not_mem_toDigits, minus_not_mem_fmtFrac]
  by_cases h3 : u < 1000000000
  · rw [durationString_milli (by omega) h3]
    simp [minus_not_mem_toDigits, minus_not_mem_fmtFrac]
  · rw [durationString_large (by omega)]
    simp [minus_not_mem_toDigits, minus_not_mem_fmtFrac, minus_not_mem_part]

theorem dropZero_ne_nil {suffix s : List Char} (hlen : suffix.length = 3) (hs : s ≠ []) : dropZero suffix s ≠ [] := by
  by_cases h : suffix <:+ s
  · obtain ⟨t, rfl⟩ := h
    rw [dropZero_append hlen]
    cases suffix with
    | nil => cases hlen
    | cons c suffix => exact List.append_ne_nil_of_right_ne_nil t (List.cons_ne_nil c _)
  · rwa [dropZero_of_not h]

theorem unsignedDur_ne_nil : unsignedDur u ≠ [] := by
  refine dropZero_ne_nil rfl (dropZero_ne_nil rfl ?_)
  rcases eq_or_ne u 0 with rfl | h0
  · decide
  by_cases h1 : u < 1000
  · rw [durationString_small h0 h1]
    simp
  by_cases h2 : u < 1000000
  · rw [durationString_micro (by omega) h2]
    simp
  by_cases h3 : u < 1000000000
  · rw [durationString_milli (by omega) h3]
    simp
  · rw [durationString_large (by omega)]
    simp

/-- What is read has two characters. -/
theorem two_le_of_parseUnits {cs : List Char} {d : ℤ} (hne : cs ≠ []) (h : parseUnits 0 [] cs = some d) :
    ¬ (String.ofList cs).utf8ByteSize < 2 := by
  match cs with
  | [] => exact absurd rfl hne
  | [c] =>
    by_cases hc : c.isDigit
    · rw [parseUnits_digit hc] at h
      cases h
    · rw [parseUnits_unit hc (by simp)] at h
      cases h
  | c :: c' :: cs =>
    have hc := c.utf8Size_pos
    have hc' := c'.utf8Size_pos
    rw [String.utf8ByteSize_ofList, String.utf8Len_cons, String.utf8Len_cons]
    omega

theorem parseDuration_unsigned {cs : List Char} (hne : cs ≠ []) (hminus : '-' ∉ cs) :
    parseDuration (String.ofList cs) = (parseUnits 0 [] cs).bind fun d => if d < 0 then none else some d := by
  have hmatch : (match (String.ofList cs).toList with
      | '-' :: cs => (parseUnits 0 [] cs).map fun d => wrap64 (-d)
      | cs => (parseUnits 0 [] cs).bind fun d => if d < 0 then none else some d) =
      (parseUnits 0 [] cs).bind fun d => if d < 0 then none else some d := by
    rw [String.toList_ofList]
    split
    · exact absurd List.mem_cons_self hminus
    · rfl
  cases hparse : parseUnits 0 [] cs with
  | none =>
    rw [hparse] at hmatch
    rw [parseDuration]
    split_ifs
    · rfl
    · exact hmatch
  | some d =>
    rw [hparse] at hmatch
    rw [parseDuration, if_neg (two_le_of_parseUnits hne hparse)]
    exact hmatch

theorem parseDuration_minus {cs : List Char} (hne : cs ≠ []) :
    parseDuration (String.ofList ('-' :: cs)) = (parseUnits 0 [] cs).map fun d => wrap64 (-d) := by
  obtain ⟨c, cs, rfl⟩ := List.exists_cons_of_ne_nil hne
  have hc := c.utf8Size_pos
  have hminus := '-'.utf8Size_pos
  have hsize : ¬ (String.ofList ('-' :: c :: cs)).utf8ByteSize < 2 := by
    rw [String.utf8ByteSize_ofList, String.utf8Len_cons, String.utf8Len_cons]
    omega
  rw [parseDuration, if_neg hsize, String.toList_ofList]
  rfl

end Unsigned

/-- The parser reads the durations that are printable, and these as they are. -/
theorem parseDuration_shortDur {d : ℤ} (hl : -2 ^ 63 ≤ d) (hu : d < 2 ^ 63) :
    parseDuration (shortDur d) = if Printable d then some d else none := by
  have hiff : Printable d ↔ 1000000 ∣ d.natAbs ∧ (1000000000 ≤ d.natAbs → 1000000000 ∣ d.natAbs) := by
    have hms : millisecond = 1000000 := rfl
    have hsecond : second = 1000000000 := rfl
    rw [Printable, hms, hsecond]
    omega
  have hparse : parseUnits 0 [] (unsignedDur d.natAbs) = if Printable d then some (d.natAbs : ℤ) else none := by
    by_cases h : Printable d
    · have hlt : d.natAbs < 2 ^ 63 := by
        have hprint := hiff.mp h
        omega
      rw [if_pos h, parseUnits_printable (hiff.mp h) hlt]
    · rw [if_neg h, parseUnits_unprintable (mt hiff.mpr h)]
  obtain ⟨u, rfl | rfl⟩ := d.eq_nat_or_neg
  · rw [Int.natAbs_natCast] at hparse
    rw [shortDur_natCast, parseDuration_unsigned unsignedDur_ne_nil minus_not_mem_unsignedDur, hparse]
    split_ifs
    · rw [Option.bind_some, if_neg (Int.not_lt.mpr (Int.natCast_nonneg u))]
    · rfl
  · rw [Int.natAbs_neg, Int.natAbs_natCast] at hparse
    rcases eq_or_ne u 0 with rfl | h0
    · decide +kernel
    rw [shortDur_neg h0, parseDuration_minus unsignedDur_ne_nil, hparse]
    split_ifs
    · exact congrArg some (wrap64_of_bounds hl hu)
    · rfl

end Influx
end Chronograf
