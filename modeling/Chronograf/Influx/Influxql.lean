/-
# SELECT statements

The syntax trees that the InfluxQL parser makes of a `SELECT` statement, and
the texts of their parts. Of the statement this is what its analysis reads:
the target is left out. The parser makes no list, time or nil literals here.

Key definitions: `Expr`, `SelectStatement`, `formatDuration`.
-/
import Chronograf.Lib.Float64
import Chronograf.Lib.Replace
import Mathlib.Data.String.Basic

namespace Chronograf
namespace Influxql

inductive Operator
  | add | sub | mul | div
  | and | or
  | eq | neq | eqRegex | neqRegex | lt | lte | gt | gte
  deriving DecidableEq

def Operator.string : Operator → String
  | add => "+"
  | sub => "-"
  | mul => "*"
  | div => "/"
  | and => "AND"
  | or => "OR"
  | eq => "="
  | neq => "!="
  | eqRegex => "=~"
  | neqRegex => "!~"
  | lt => "<"
  | lte => "<="
  | gt => ">"
  | gte => ">="

/-- The type a reference can be given with `::`. -/
inductive DataType
  | unknown | float | integer | string | boolean | tag | anyField
  deriving DecidableEq

def DataType.text : DataType → String
  | unknown => "unknown"
  | float => "float"
  | integer => "integer"
  | string => "string"
  | boolean => "boolean"
  | tag => "tag"
  | anyField => "field"

/-- What a wildcard stands for. -/
inductive WildcardType
  | any | field | tag
  deriving DecidableEq

/-- Durations are in nanoseconds; a regular expression is its source. -/
inductive Expr
  | binary (op : Operator) (lhs rhs : Expr)
  | boolean (val : Bool)
  | call (name : String) (args : List Expr)
  | distinct (val : String)
  | duration (val : ℤ)
  | integer (val : ℤ)
  | number (val : Float64)
  | paren (expr : Expr)
  | regex (val : String)
  | string (val : String)
  | varRef (val : String) (type : DataType)
  | wildcard (type : WildcardType)

structure Field where
  expr : Expr
  aliasName : String

/-- A source: its name or a regular expression for it. -/
structure Measurement where
  database : String
  retentionPolicy : String
  name : String
  regex : Option String
  deriving DecidableEq

/-- A number `fill` can be given. -/
inductive FillValue
  | integer (val : ℤ)
  | number (val : Float64)
  deriving DecidableEq

inductive Fill
  | null
  | none
  | number (val : FillValue)
  | previous
  | linear
  deriving DecidableEq

structure SortField where
  name : String
  ascending : Bool
  deriving DecidableEq

structure SelectStatement where
  fields : List Field
  sources : List Measurement
  condition : Option Expr
  dimensions : List Expr
  fill : Fill
  sortFields : List SortField
  limit : ℕ
  offset : ℕ
  slimit : ℕ
  soffset : ℕ

/-! ### Texts -/

def microsecond : ℤ := 1000

def millisecond : ℤ := 1000 * microsecond

def second : ℤ := 1000 * millisecond

def minute : ℤ := 60 * second

def hour : ℤ := 60 * minute

/-- The duration in the largest unit that divides it, or in microseconds. -/
def formatDuration (d : ℤ) : String :=
  if d = 0 then "0s"
  else if d % (7 * 24 * hour) = 0 then Int.repr (d / (7 * 24 * hour)) ++ "w"
  else if d % (24 * hour) = 0 then Int.repr (d / (24 * hour)) ++ "d"
  else if d % hour = 0 then Int.repr (d / hour) ++ "h"
  else if d % minute = 0 then Int.repr (d / minute) ++ "m"
  else if d % second = 0 then Int.repr (d / second) ++ "s"
  else if d % millisecond = 0 then Int.repr (d / millisecond) ++ "ms"
  else Int.repr (d.tdiv microsecond) ++ "u"

/-- `NumberLiteral.String`: three decimals. -/
def numberText (x : Float64) : String := String.ofList (x.fixed 3)

def booleanText (b : Bool) : String := if b then "true" else "false"

/-- `RegexLiteral.String`: between slashes, those in it escaped. -/
def regexText (r : String) : String := String.ofList ('/' :: Replace.replaceAll ['/'] ['\\', '/'] r.toList ++ ['/'])

def wildcardText : WildcardType → String
  | .any => "*"
  | .field => "*::field"
  | .tag => "*::tag"

/-- `fmt.Sprintf("%v", value)`. -/
def FillValue.text : FillValue → String
  | .integer i => Int.repr i
  | .number x => String.ofList x.shortest

/-! ### What the texts tell -/

/-- The units of a duration, and the text of each. -/
def durationUnits : List (String × ℤ) :=
  [("w", 7 * 24 * hour), ("d", 24 * hour), ("h", hour), ("m", minute), ("s", second), ("ms", millisecond),
    ("u", microsecond)]

/-- Unless a part of a microsecond is cut off, the text is that of a number of
units which are the duration. -/
theorem formatDuration_spec {d : ℤ} (h : microsecond ∣ d) :
    ∃ n, ∃ u ∈ durationUnits, formatDuration d = Int.repr n ++ u.1 ∧ d = n * u.2 := by
  unfold formatDuration
  split_ifs with h0 hw hd hh hm hs hms
  · exact ⟨0, ("s", second), by decide, rfl, h0⟩
  · exact ⟨_, ("w", 7 * 24 * hour), by decide, rfl, (Int.ediv_mul_cancel_of_emod_eq_zero hw).symm⟩
  · exact ⟨_, ("d", 24 * hour), by decide, rfl, (Int.ediv_mul_cancel_of_emod_eq_zero hd).symm⟩
  · exact ⟨_, ("h", hour), by decide, rfl, (Int.ediv_mul_cancel_of_emod_eq_zero hh).symm⟩
  · exact ⟨_, ("m", minute), by decide, rfl, (Int.ediv_mul_cancel_of_emod_eq_zero hm).symm⟩
  · exact ⟨_, ("s", second), by decide, rfl, (Int.ediv_mul_cancel_of_emod_eq_zero hs).symm⟩
  · exact ⟨_, ("ms", millisecond), by decide, rfl, (Int.ediv_mul_cancel_of_emod_eq_zero hms).symm⟩
  · exact ⟨_, ("u", microsecond), by decide, rfl, (Int.tdiv_mul_cancel h).symm⟩

/-- A character of a whole number. -/
def isNumeral (c : Char) : Bool := c.isDigit || c = '-'

theorem isNumeral_of_mem_repr (n : ℤ) : ∀ c ∈ (Int.repr n).toList, isNumeral c := by
  have hnat : ∀ m : ℕ, ∀ c ∈ (Nat.repr m).toList, isNumeral c := by
    intro m c hc
    rw [Nat.toList_repr] at hc
    simp [isNumeral, Float64.isDigit_of_mem_toDigits c hc]
  intro c hc
  rw [Int.repr_eq_if] at hc
  split_ifs at hc with hpos
  · exact hnat _ c hc
  · rw [String.toList_append, List.mem_append] at hc
    rcases hc with hminus | hc
    · have hc : c = '-' := by simpa using hminus
      rw [hc]
      decide
    · exact hnat _ c hc

theorem natRepr_inj {n m : ℕ} (h : Nat.repr n = Nat.repr m) : n = m := by
  have hnum := congrArg (fun s : String => Nat.ofDigitChars 10 s.toList 0) h
  simpa only [Nat.toList_repr, Nat.ofDigitChars_ten_toDigits] using hnum

theorem repr_ne_minus {n m : ℕ} : Nat.repr n ≠ "-" ++ Nat.repr m := by
  intro h
  have hchars := congrArg String.toList h
  rw [String.toList_append, Nat.toList_repr, ← List.append_nil (Nat.toDigits 10 n)] at hchars
  exact Float64.toDigits_ne_minus hchars

theorem intRepr_inj {n m : ℤ} (h : Int.repr n = Int.repr m) : n = m := by
  rw [Int.repr_eq_if, Int.repr_eq_if] at h
  split_ifs at h with hn hm hm
  · have hnat := natRepr_inj h
    omega
  · exact absurd h repr_ne_minus
  · exact absurd h.symm repr_ne_minus
  · have hnat := natRepr_inj (String.append_right_inj "-" |>.mp h)
    omega

theorem numeral_append_inj {n n' : ℤ} {u u' : String} (hu : ∀ c ∈ u.toList.head?, ¬ isNumeral c)
    (hu' : ∀ c ∈ u'.toList.head?, ¬ isNumeral c) (h : Int.repr n ++ u = Int.repr n' ++ u') : n = n' ∧ u = u' := by
  have hchars := congrArg String.toList h
  rw [String.toList_append, String.toList_append] at hchars
  have htake : ∀ (m : ℤ) (v : String), (∀ c ∈ v.toList.head?, ¬ isNumeral c) →
      ((Int.repr m).toList ++ v.toList).takeWhile isNumeral = (Int.repr m).toList := by
    intro m v hv
    rw [List.takeWhile_append_of_pos (isNumeral_of_mem_repr m)]
    cases hvs : v.toList with
    | nil => rw [List.takeWhile_nil, List.append_nil]
    | cons c cs => rw [List.takeWhile_cons, if_neg (hv c (by rw [hvs]; rfl)), List.append_nil]
  have hrepr := congrArg (List.takeWhile isNumeral) hchars
  rw [htake n u hu, htake n' u' hu'] at hrepr
  rw [hrepr] at hchars
  exact ⟨intRepr_inj (String.toList_injective hrepr), String.toList_injective (List.append_cancel_left hchars)⟩

theorem no_numeral_first {s : String} (h : s.toList.head?.all fun c => !isNumeral c) :
    ∀ c ∈ s.toList.head?, ¬ isNumeral c := by
  intro c hc
  rw [Option.mem_def.mp hc] at h
  simpa using h

/-- Durations of whole microseconds have different texts. -/
theorem eq_of_formatDuration {d d' : ℤ} (hd : microsecond ∣ d) (hd' : microsecond ∣ d')
    (h : formatDuration d = formatDuration d') : d = d' := by
  obtain ⟨n, u, hu, htext, rfl⟩ := formatDuration_spec hd
  obtain ⟨n', u', hu', htext', rfl⟩ := formatDuration_spec hd'
  rw [htext, htext'] at h
  have hhead : ∀ v ∈ durationUnits, v.1.toList.head?.all fun c => !isNumeral c := by decide
  obtain ⟨rfl, hunit⟩ := numeral_append_inj (no_numeral_first (hhead u hu)) (no_numeral_first (hhead u' hu')) h
  have hsame : ∀ v ∈ durationUnits, ∀ w ∈ durationUnits, v.1 = w.1 → v.2 = w.2 := by decide
  rw [hsame u hu u' hu' hunit]

theorem repr_ne_nil (n : ℤ) : (Int.repr n).toList ≠ [] := by
  rw [Int.repr_eq_if]
  split_ifs
  · rw [Nat.toList_repr]
    exact Nat.toDigits_ne_nil
  · rw [String.toList_append]
    exact List.append_ne_nil_of_left_ne_nil (by decide) _

/-- The text of a duration starts with a sign or a digit. -/
theorem formatDuration_ne {d : ℤ} {s : String} (h : microsecond ∣ d) (hs : ∀ c ∈ s.toList.head?, ¬ isNumeral c) :
    formatDuration d ≠ s := by
  obtain ⟨n, u, -, htext, -⟩ := formatDuration_spec h
  obtain ⟨c, cs, hrepr⟩ := List.exists_cons_of_ne_nil (repr_ne_nil n)
  rintro rfl
  rw [htext, String.toList_append, hrepr] at hs
  exact hs c rfl (isNumeral_of_mem_repr n c (by rw [hrepr]; exact List.mem_cons_self))

theorem booleanText_inj : ∀ {b b' : Bool}, booleanText b = booleanText b' → b = b' := by decide

/-- The source of a regular expression with its slashes escaped. -/
def escapeSlashes (r : List Char) : List Char := Replace.replaceAll ['/'] ['\\', '/'] r

@[simp] theorem escapeSlashes_nil : escapeSlashes [] = [] := rfl

theorem escapeSlashes_cons (c : Char) (r : List Char) :
    escapeSlashes (c :: r) = if c = '/' then '\\' :: '/' :: escapeSlashes r else c :: escapeSlashes r := by
  unfold escapeSlashes Replace.replaceAll
  by_cases hc : c = '/'
  · rw [if_pos hc, Replace.replaceFrom_of_match (by simp [hc])]
    rfl
  · have hno : ¬ ['/'] <+: c :: r := fun h => hc ((List.cons_prefix_cons.mp h).1).symm
    rw [if_neg hc, Replace.replaceFrom_of_no_match hno]

theorem escapeSlashes_ne_slash (r s : List Char) : escapeSlashes r ≠ '/' :: s := by
  cases r with
  | nil => exact fun h => nomatch h
  | cons c r =>
    rw [escapeSlashes_cons]
    split_ifs with hc
    · simp
    · exact fun h => hc (List.cons.inj h).1

theorem escapeSlashes_inj : ∀ {r r' : List Char}, escapeSlashes r = escapeSlashes r' → r = r'
  | [], [], _ => rfl
  | [], c :: r', h => by
    rw [escapeSlashes_cons, escapeSlashes_nil] at h
    split_ifs at h
  | c :: r, [], h => by
    rw [escapeSlashes_cons, escapeSlashes_nil] at h
    split_ifs at h
  | c :: r, c' :: r', h => by
    rw [escapeSlashes_cons, escapeSlashes_cons] at h
    split_ifs at h with hc hc' hc'
    · rw [hc, hc', escapeSlashes_inj (List.cons.inj (List.cons.inj h).2).2]
    · exact absurd (List.cons.inj h).2.symm (escapeSlashes_ne_slash _ _)
    · exact absurd (List.cons.inj h).2 (escapeSlashes_ne_slash _ _)
    · obtain ⟨rfl, hr⟩ := List.cons.inj h
      rw [escapeSlashes_inj hr]

theorem regexText_inj {r r' : String} (h : regexText r = regexText r') : r = r' := by
  have hchars := (List.cons.inj (String.ofList_inj.mp h)).2
  exact String.toList_injective (escapeSlashes_inj (List.append_cancel_right hchars))

end Influxql
end Chronograf
