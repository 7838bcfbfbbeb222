/-
# RFC 3339 times

The instant of a time as it is written: a date, the time of the day with any
number of digits of a second, and `Z` or an offset. Days are counted from
the beginning of 1970, in the calendar with leap years.

Key definitions: `Rfc3339.dayOf`, `Rfc3339.parse`, `Rfc3339.instant`.
-/
import Mathlib.Data.Rat.Floor

namespace Rfc3339

/-! ### Days -/

def isLeap (year : ℕ) : Bool := year % 4 = 0 ∧ (year % 100 ≠ 0 ∨ year % 400 = 0)

def daysInMonth (year : ℕ) : ℕ → ℕ
  | 2 => if isLeap year then 29 else 28
  | 4 | 6 | 9 | 11 => 30
  | 1 | 3 | 5 | 7 | 8 | 10 | 12 => 31
  | _ => 0

/-- The first day of a year. -/
def dayFromYear (year : ℤ) : ℤ := 365 * (year - 1970) + (year - 1969) / 4 - (year - 1901) / 100 + (year - 1601) / 400

def dayOf (year month day : ℕ) : ℤ :=
  dayFromYear year + ((List.range (month - 1)).map fun m => daysInMonth year (m + 1)).sum + (day - 1 : ℕ)

/-! ### Texts -/

def digitsValue (cs : List Char) : ℕ := cs.foldl (fun n c => 10 * n + (c.toNat - '0'.toNat)) 0

/-- So many digits, and what is behind them. -/
def digits (n : ℕ) (cs : List Char) : Option (ℕ × List Char) :=
  if (cs.take n).length = n ∧ (cs.take n).all Char.isDigit then some (digitsValue (cs.take n), cs.drop n) else none

def char (c : Char) : List Char → Option (List Char)
  | a :: cs => if a = c then some cs else none
  | [] => none

/-- `year-month-day`. -/
def date (cs : List Char) : Option (ℤ × List Char) := do
  let (year, cs) ← digits 4 cs
  let cs ← char '-' cs
  let (month, cs) ← digits 2 cs
  let cs ← char '-' cs
  let (day, cs) ← digits 2 cs
  if 1 ≤ day ∧ day ≤ daysInMonth year month then some (dayOf year month day, cs) else none

/-- `hour:minute`. -/
def hours (cs : List Char) : Option (ℕ × List Char) := do
  let (hour, cs) ← digits 2 cs
  let cs ← char ':' cs
  let (minute, cs) ← digits 2 cs
  if hour < 24 ∧ minute < 60 then some (60 * hour + minute, cs) else none

/-- Digits of a second behind a point. -/
def fraction : List Char → Option (ℚ × List Char)
  | '.' :: cs =>
    let ds := cs.takeWhile Char.isDigit
    if ds.isEmpty then none else some (digitsValue ds / 10 ^ ds.length, cs.dropWhile Char.isDigit)
  | cs => some (0, cs)

/-- The minutes that a time is ahead. -/
def offset : List Char → Option ℤ
  | ['Z'] => some 0
  | '+' :: cs => do
    let (minutes, cs) ← hours cs
    if cs = [] then some minutes else none
  | '-' :: cs => do
    let (minutes, cs) ← hours cs
    if cs = [] then some (-minutes) else none
  | _ => none

/-- The seconds since the beginning of 1970. -/
def parse (s : String) : Option ℚ := do
  let (day, cs) ← date s.toList
  let cs ← char 'T' cs
  let (minutes, cs) ← hours cs
  let cs ← char ':' cs
  let (second, cs) ← digits 2 cs
  let (part, cs) ← fraction cs
  let ahead ← offset cs
  if second < 60 then some (86400 * day + 60 * (minutes - ahead) + second + part) else none

def instant (s : String) : ℚ := (parse s).getD 0

end Rfc3339
