/-
# Floating-point numbers and their texts

Finite numbers of 64 bits, the text of one with a fixed number of decimals
and the shortest text that is read as the number. Texts are made by rounding
to the nearest decimal and read by rounding to the nearest number, ties to
even in both. Numbers rounded to 32 bits are written without an exponent.

Key definitions: `Float64`, `Float64.nearest`, `Float64.fixed`,
`Float64.shortest`, `Float64.ReadsBack`, `Float32.nearest`, `Float32.shortest`.
Key theorem: `Float64.eq_of_fixed`.
-/
import Mathlib.Algebra.Group.Nat.Defs
import Mathlib.Data.Int.Notation
import Mathlib.Data.List.Basic
import Mathlib.Data.Nat.Notation
import Mathlib.Tactic.Cases

/-- The number `± mantissa * 2 ^ exponent`. -/
structure Float64 where
  neg : Bool
  mantissa : ℕ
  exponent : ℤ
  bounded : mantissa < 2 ^ 53 ∧ -1074 ≤ exponent ∧ exponent ≤ 971
  normal : 2 ^ 52 ≤ mantissa ∨ exponent = -1074
  deriving DecidableEq

namespace Float64

/-- The quotient, rounded to the nearest whole number. -/
def divRound (a b : ℕ) : ℕ :=
  if 2 * (a % b) < b ∨ 2 * (a % b) = b ∧ a / b % 2 = 0 then a / b else a / b + 1

/-- The fraction that `a / b` is of `2 ^ e`. -/
def ofPow (a b : ℕ) (e : ℤ) : ℕ × ℕ := if 0 ≤ e then (a, b * 2 ^ e.toNat) else (a * 2 ^ (-e).toNat, b)

/-- Mantissa and exponent of the number nearest to `a / b`. -/
def nearest (a b : ℕ) : ℕ × ℤ :=
  if a = 0 then (0, -1074)
  else
    let e : ℤ := a.log2 - b.log2 - 52
    let (n, d) := ofPow a b e
    let e := max (if n < d * 2 ^ 52 then e - 1 else e) (-1074)
    let (n, d) := ofPow a b e
    let m := divRound n d
    if m = 2 ^ 53 then (2 ^ 52, e + 1) else (m, e)

/-- The absolute value as a fraction. -/
def abs (x : Float64) : ℕ × ℕ :=
  if 0 ≤ x.exponent then (x.mantissa * 2 ^ x.exponent.toNat, 1) else (x.mantissa, 2 ^ (-x.exponent).toNat)

/-- The absolute value in units of `1 / k`. -/
def scaled (x : Float64) (k : ℕ) : ℕ := divRound (x.abs.1 * k) x.abs.2

/-- The sign, also of a zero. -/
def sign (x : Float64) : List Char := if x.neg then ['-'] else []

/-- The last `p` digits of `n`. -/
def lastDigits : ℕ → ℕ → List Char
  | 0, _ => []
  | p + 1, n => lastDigits p (n / 10) ++ [(n % 10).digitChar]

/-- The text with `p` decimals, `p` not 0. -/
def fixed (x : Float64) (p : ℕ) : List Char :=
  x.sign ++ (Nat.toDigits 10 (x.scaled (10 ^ p) / 10 ^ p) ++ '.' :: lastDigits p (x.scaled (10 ^ p)))

/-- The text with `p` decimals is read as the number. -/
def ReadsBack (x : Float64) (p : ℕ) : Prop := nearest (x.scaled (10 ^ p)) (10 ^ p) = (x.mantissa, x.exponent)

instance (x : Float64) (p : ℕ) : Decidable (x.ReadsBack p) :=
  inferInstanceAs (Decidable (nearest _ _ = (x.mantissa, x.exponent)))

/-! ### The shortest text -/

/-- The digits are those of `digits`, with the decimal point before the first
one moved by `point` places to the right. -/
structure Decimal where
  digits : List Char
  point : ℤ

/-- The least `k` with `a / b < 10 ^ k`, of fractions between `10 ^ -400` and `10 ^ 400`. -/
def magnitude (a b : ℕ) : ℤ := ((List.range 800).filter fun i => b * 10 ^ i ≤ a * 10 ^ 400).length - 400

/-- The fraction of `10 ^ k` that `a / b` is. -/
def over10 (a b : ℕ) (k : ℤ) : ℕ × ℕ := if 0 ≤ k then (a, b * 10 ^ k.toNat) else (a * 10 ^ (-k).toNat, b)

/-- The whole multiple of `10 ^ k` next to the number that is read as the number;
the nearer of two. -/
def candidate (x : Float64) (k : ℤ) : Option ℕ :=
  let (n, d) := over10 x.abs.1 x.abs.2 k
  let reads (c : ℕ) : Bool :=
    (if 0 ≤ k then nearest (c * 10 ^ k.toNat) 1 else nearest c (10 ^ (-k).toNat)) = (x.mantissa, x.exponent)
  match reads (n / d), reads (n / d + 1) with
  | true, true => some (divRound n d)
  | true, false => some (n / d)
  | false, true => some (n / d + 1)
  | false, false => none

/-- The shortest digits that are read as the number. -/
def shortestDigits (x : Float64) : Decimal :=
  if x.mantissa = 0 then ⟨[], 0⟩
  else
    let point := magnitude x.abs.1 x.abs.2
    let found := (List.range 17).findSome? fun (i : ℕ) => (x.candidate (point - (i + 1))).map fun c => (i + 1, c)
    match found with
    | some (len, c) =>
      let ds := Nat.toDigits 10 c
      ⟨(ds.reverse.dropWhile (· = '0')).reverse, point + (ds.length - len)⟩
    | none => ⟨[], 0⟩

/-- Digits, mantissa and exponent apart. -/
def Decimal.formatE (d : Decimal) : List Char :=
  let e := d.point - 1
  let es := Nat.toDigits 10 e.natAbs
  d.digits.take 1 ++ (if d.digits.length ≤ 1 then [] else '.' :: d.digits.drop 1) ++ 'e' ::
    (if e < 0 then '-' else '+') :: (if es.length < 2 then '0' :: es else es)

/-- Digits around the decimal point. -/
def Decimal.formatF (d : Decimal) : List Char :=
  let whole := d.digits.take d.point.toNat
  let rest := List.replicate (-d.point).toNat '0' ++ d.digits.drop d.point.toNat
  (if d.point ≤ 0 then ['0'] else whole ++ List.replicate (d.point.toNat - whole.length) '0') ++
    (if d.digits = [] ∨ d.digits.length ≤ d.point then [] else '.' :: rest)

/-- The shortest text, with an exponent if that is large. -/
def shortest (x : Float64) : List Char :=
  let d := x.shortestDigits
  x.sign ++ (if d.point - 1 < -4 ∨ 6 ≤ d.point - 1 then d.formatE else d.formatF)

/-! ### What a text with decimals tells -/

theorem digitChar_inj : ∀ a < 10, ∀ b < 10, Nat.digitChar a = Nat.digitChar b → a = b := by decide

theorem length_lastDigits (p n : ℕ) : (lastDigits p n).length = p := by
  induction p generalizing n with
  | zero => rfl
  | succ p ih => rw [lastDigits, List.length_append, ih, List.length_singleton]

theorem lastDigits_inj {p n m : ℕ} (h : lastDigits p n = lastDigits p m) : n % 10 ^ p = m % 10 ^ p := by
  induction p generalizing n m with
  | zero => rw [Nat.pow_zero, Nat.mod_one, Nat.mod_one]
  | succ p ih =>
    have hlen : (lastDigits p (n / 10)).length = (lastDigits p (m / 10)).length := by
      rw [length_lastDigits, length_lastDigits]
    obtain ⟨hinit, hlast⟩ := List.append_inj h hlen
    have hdigit : n % 10 = m % 10 :=
      digitChar_inj _ (Nat.mod_lt n (by decide)) _ (Nat.mod_lt m (by decide)) (List.cons.inj hlast).1
    have hrest := ih hinit
    rw [Nat.pow_succ', Nat.mod_mul, Nat.mod_mul, hdigit, hrest]

/-- Up to the first character that is not a digit. -/
theorem takeWhile_digits {ds rest : List Char} {c : Char} (hds : ∀ d ∈ ds, d.isDigit) (hc : ¬ c.isDigit) :
    (ds ++ c :: rest).takeWhile (·.isDigit) = ds := by
  rw [List.takeWhile_append_of_pos hds, List.takeWhile_cons, if_neg hc, List.append_nil]

theorem isDigit_of_mem_toDigits {n : ℕ} : ∀ d ∈ Nat.toDigits 10 n, d.isDigit :=
  fun _ hd => Nat.isDigit_of_mem_toDigits (by decide) (by decide) hd

theorem unsigned_inj {a b : ℕ} {ds es : List Char} (h : Nat.toDigits 10 a ++ '.' :: ds = Nat.toDigits 10 b ++ '.' :: es) :
    a = b ∧ ds = es := by
  have htake := congrArg (List.takeWhile (·.isDigit)) h
  rw [takeWhile_digits isDigit_of_mem_toDigits (by decide), takeWhile_digits isDigit_of_mem_toDigits (by decide)] at htake
  rw [htake] at h
  have hnum := congrArg (Nat.ofDigitChars 10 · 0) htake
  simp only [Nat.ofDigitChars_ten_toDigits] at hnum
  exact ⟨hnum, (List.cons.inj (List.append_cancel_left h)).2⟩

/-- A text without a sign does not begin with one. -/
theorem toDigits_ne_minus {n : ℕ} {rest cs : List Char} : Nat.toDigits 10 n ++ rest ≠ '-' :: cs := by
  intro h
  have hdigits := @isDigit_of_mem_toDigits n
  cases hn : Nat.toDigits 10 n with
  | nil => exact Nat.toDigits_ne_nil hn
  | cons d ds =>
    rw [hn] at h hdigits
    have hd := hdigits d List.mem_cons_self
    rw [(List.cons.inj h).1] at hd
    exact absurd hd (by decide)

theorem fixed_inj {x y : Float64} {p : ℕ} (h : x.fixed p = y.fixed p) :
    x.neg = y.neg ∧ x.scaled (10 ^ p) = y.scaled (10 ^ p) := by
  have hnat : Nat.toDigits 10 (x.scaled (10 ^ p) / 10 ^ p) ++ '.' :: lastDigits p (x.scaled (10 ^ p)) =
      Nat.toDigits 10 (y.scaled (10 ^ p) / 10 ^ p) ++ '.' :: lastDigits p (y.scaled (10 ^ p)) →
      x.scaled (10 ^ p) = y.scaled (10 ^ p) := by
    intro heq
    obtain ⟨hdiv, hlast⟩ := unsigned_inj heq
    rw [← Nat.div_add_mod (x.scaled (10 ^ p)) (10 ^ p), ← Nat.div_add_mod (y.scaled (10 ^ p)) (10 ^ p), hdiv,
      lastDigits_inj hlast]
  unfold fixed sign at h
  cases hx : x.neg <;> cases hy : y.neg <;> simp only [hx, hy, if_true, Bool.false_eq_true, if_false, List.nil_append,
    List.singleton_append] at h
  · exact ⟨rfl, hnat h⟩
  · exact absurd h toDigits_ne_minus
  · exact absurd h.symm toDigits_ne_minus
  · exact ⟨rfl, hnat (List.cons.inj h).2⟩

/-- Numbers that are read back from the same text are the same. -/
theorem eq_of_fixed {x y : Float64} {p : ℕ} (hx : x.ReadsBack p) (hy : y.ReadsBack p) (h : x.fixed p = y.fixed p) :
    x = y := by
  obtain ⟨hneg, hscaled⟩ := fixed_inj h
  unfold ReadsBack at hx hy
  rw [hscaled, hy] at hx
  obtain ⟨hm, he⟩ := Prod.mk.inj hx
  cases x
  cases y
  simp_all

end Float64

namespace Float32

/-- Mantissa and exponent of the number of 32 bits nearest to `a / b`; an
exponent above 104 is infinity. -/
def nearest (a b : ℕ) : ℕ × ℤ :=
  if a = 0 then (0, -149)
  else
    let e : ℤ := a.log2 - b.log2 - 23
    let (n, d) := Float64.ofPow a b e
    let e := max (if n < d * 2 ^ 23 then e - 1 else e) (-149)
    let (n, d) := Float64.ofPow a b e
    let m := Float64.divRound n d
    if m = 2 ^ 24 then (2 ^ 23, e + 1) else (m, e)

/-- The number as a fraction. -/
def fraction (x : ℕ × ℤ) : ℕ × ℕ :=
  if 0 ≤ x.2 then (x.1 * 2 ^ x.2.toNat, 1) else (x.1, 2 ^ (-x.2).toNat)

/-- The whole multiple of `10 ^ k` next to the number that is read as the number;
the nearer of two. -/
def candidate (x : ℕ × ℤ) (k : ℤ) : Option ℕ :=
  let (n, d) := Float64.over10 (fraction x).1 (fraction x).2 k
  let reads (c : ℕ) : Bool := (if 0 ≤ k then nearest (c * 10 ^ k.toNat) 1 else nearest c (10 ^ (-k).toNat)) = x
  match reads (n / d), reads (n / d + 1) with
  | true, true => some (Float64.divRound n d)
  | true, false => some (n / d)
  | false, true => some (n / d + 1)
  | false, false => none

/-- The shortest digits that are read as the number. -/
def shortestDigits (x : ℕ × ℤ) : Float64.Decimal :=
  if x.1 = 0 then ⟨[], 0⟩
  else
    let point := Float64.magnitude (fraction x).1 (fraction x).2
    let found := (List.range 9).findSome? fun (i : ℕ) => (candidate x (point - (i + 1))).map fun c => (i + 1, c)
    match found with
    | some (len, c) =>
      let ds := Nat.toDigits 10 c
      ⟨(ds.reverse.dropWhile (· = '0')).reverse, point + (ds.length - len)⟩
    | none => ⟨[], 0⟩

/-- The text of `± a / b`, rounded to 32 bits. -/
def shortest (neg : Bool) (a b : ℕ) : List Char :=
  let x := nearest a b
  if 104 < x.2 then (if neg then '-' else '+') :: ['I', 'n', 'f']
  else (if neg then ['-'] else []) ++ (shortestDigits x).formatF

end Float32
