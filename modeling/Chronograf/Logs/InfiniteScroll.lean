/-
# The rows of the log viewer

The initial load of `logs/actions/index.ts`, its calls for older and for newer
logs, their reducers of `logs/reducers/index.ts`, and the queries and bounds of
`logs/utils/index.ts`. The database has log points at nanoseconds; its answers
have the milliseconds, which the next query begins at.

A filter is what a clause on the tags, the search term or a filter of the
viewer asks of a point. What the database counts and answers is a part of
`Database`; an answer is a page of the points that its query selects.

Key definitions: `LogPoint`, `Clause`, `Database`, `findOlderLowerTimeBounds`,
`TableInfiniteData`, `fetchOlderLogsAsync`, `fetchNewerLogsAsync`, `perform`.
Key theorems: `olderLower_le`, `le_newerUpper`, `page_answer`.
-/
import Chronograf.Lib.Pages
import Mathlib.Data.Int.Order.Basic
import Mathlib.Tactic.Common

namespace Chronograf
namespace Logs

/-- A log point, its time in nanoseconds. -/
structure LogPoint (α : Type) where
  time : ℤ
  row : α
  deriving DecidableEq

/-- The time in a response, in milliseconds. -/
def responseTime (time : ℤ) : ℤ := time.tdiv 1000000

/-- The instant that `toISOString` names, in nanoseconds. -/
def toISOString (ms : ℤ) : ℤ := ms * 1000000

/-- What `moment` keeps of a time. -/
def moment (time : ℤ) : ℤ := time / 1000000

variable {α : Type}

/-! ### Queries -/

inductive Clause (α : Type)
  | lower (time : ℤ)
  | upper (time : ℤ)
  | filter (accepts : LogPoint α → Bool)

def Clause.Holds (p : LogPoint α) : Clause α → Prop
  | lower time => time ≤ p.time
  | upper time => p.time < time
  | filter accepts => accepts p = true

inductive Order
  | ascending
  | descending

def Order.Rel : Order → LogPoint α → LogPoint α → Prop
  | ascending, p, q => p.time ≤ q.time
  | descending, p, q => q.time ≤ p.time

structure Query (α : Type) where
  clauses : List (Clause α)
  order : Order

def INITIAL_LIMIT : ℕ := 1000

def buildInfiniteScrollWhereClause (lower upper : ℤ) : List (Clause α) := [.lower lower, .upper upper]

def buildInfiniteScrollLogQuery (lower upper : ℤ) (filters : List (LogPoint α → Bool)) : List (Clause α) :=
  buildInfiniteScrollWhereClause lower upper ++ filters.map .filter

/-- The log points, the filters, and what the database answers. -/
structure Database (α : Type) where
  points : List (LogPoint α)
  filters : List (LogPoint α → Bool)
  count : ℤ → ℤ → ℕ
  answer : Query α → List (LogPoint α)
  nodup : points.Nodup
  answered : ∀ q, Page (fun p => p ∈ points ∧ ∀ c ∈ q.clauses, c.Holds p) q.order.Rel INITIAL_LIMIT (answer q)

/-- The log point satisfies the filters. -/
def Database.Satisfies (db : Database α) (p : LogPoint α) : Prop := p ∈ db.points ∧ ∀ f ∈ db.filters, f p = true

/-! ### Bounds -/

def SECONDS_AWAY_LIMIT : ℕ := 1296000

/-- The loop of `findOlderLowerTimeBounds`. -/
def olderLower (count : ℤ → ℤ → ℕ) (upper currentLower : ℤ) (secondsBack : ℕ) (h : 0 < secondsBack) : ℤ :=
  if SECONDS_AWAY_LIMIT ≤ secondsBack then currentLower
  else if 400 ≤ count (toISOString currentLower) upper then currentLower
  else olderLower count upper (currentLower - 1000 * (secondsBack + 2 * secondsBack)) (secondsBack + 2 * secondsBack) (by omega)
termination_by SECONDS_AWAY_LIMIT - secondsBack

def findOlderLowerTimeBounds (count : ℤ → ℤ → ℕ) (upper : ℤ) : ℤ :=
  toISOString (olderLower count upper (moment upper - 1000 * 5) 5 (by decide))

/-- The loop of `findNewerUpperTimeBounds`. -/
def newerUpper (count : ℤ → ℤ → ℕ) (lower currentUpper : ℤ) (secondsForward : ℕ) (h : 0 < secondsForward) : ℤ :=
  if SECONDS_AWAY_LIMIT < secondsForward then currentUpper
  else if 400 ≤ count lower (toISOString currentUpper) then currentUpper
  else newerUpper count lower (currentUpper + 1000 * (secondsForward + 2 * secondsForward))
    (secondsForward + 2 * secondsForward) (by omega)
termination_by SECONDS_AWAY_LIMIT + 1 - secondsForward

def findNewerUpperTimeBounds (count : ℤ → ℤ → ℕ) (lower : ℤ) : ℤ :=
  toISOString (newerUpper count lower (moment lower + 1000 * 5) 5 (by decide))

/-! ### The table -/

structure TableInfiniteData (α : Type) where
  forward : List (LogPoint α)
  backward : List (LogPoint α)
  newRowsAdded : Option ℤ
  deriving DecidableEq

/-- The first element for each key. -/
def uniqBy {β κ : Type} [DecidableEq κ] (key : β → κ) : List β → List β
  | [] => []
  | b :: bs => b :: (uniqBy key bs).filter fun c => key c ≠ key b

def concatMoreLogs (s : TableInfiniteData α) (values : List (LogPoint α)) : TableInfiniteData α :=
  { s with backward := s.backward ++ values }

def prependMoreLogs (s : TableInfiniteData α) (values : List (LogPoint α)) : TableInfiniteData α :=
  let uniqueValues := uniqBy (fun p : LogPoint α => responseTime p.time) (values ++ s.forward)
  { s with
    forward := uniqueValues
    newRowsAdded := some (uniqueValues.length - s.forward.length) }

def executeTableNewerQueryAsync (db : Database α) (startTime : ℤ) (s : TableInfiniteData α) : TableInfiniteData α :=
  let endTime := findNewerUpperTimeBounds db.count startTime
  { s with forward := (db.answer ⟨buildInfiniteScrollLogQuery startTime endTime db.filters, .ascending⟩).reverse }

def executeTableOlderQueryAsync (db : Database α) (time : ℤ) (s : TableInfiniteData α) : TableInfiniteData α :=
  let lower := findOlderLowerTimeBounds db.count time
  { s with backward := db.answer ⟨buildInfiniteScrollLogQuery lower time db.filters, .descending⟩ }

def fetchOlderLogsAsync (db : Database α) (queryTimeEnd : ℤ) (s : TableInfiniteData α) : TableInfiniteData α :=
  let queryTimeStart := findOlderLowerTimeBounds db.count queryTimeEnd
  concatMoreLogs s (db.answer ⟨buildInfiniteScrollLogQuery queryTimeStart queryTimeEnd db.filters, .descending⟩)

def fetchNewerLogsAsync (db : Database α) (queryTimeStart : ℤ) (s : TableInfiniteData α) : TableInfiniteData α :=
  let queryTimeEnd := findNewerUpperTimeBounds db.count queryTimeStart
  prependMoreLogs s (db.answer ⟨buildInfiniteScrollLogQuery queryTimeStart queryTimeEnd db.filters, .ascending⟩).reverse

/-! ### Scrolling -/

/-- All rows of the table. -/
def TableInfiniteData.rows (s : TableInfiniteData α) : List (LogPoint α) := s.forward ++ s.backward

/-- A scroll to the end of the table, or to its top, at a time of the clock. -/
inductive Scroll
  | loadMoreBelowRows (now : ℤ)
  | loadMoreAboveRows (now : ℤ)

/-- The time that the table asks for older logs from. -/
def lastTime (s : TableInfiniteData α) (now : ℤ) : ℤ :=
  ((s.backward.getLast?.or s.forward.getLast?).map fun p => responseTime p.time).getD now

/-- The time that the table asks for newer logs from. -/
def firstTime (s : TableInfiniteData α) (now : ℤ) : ℤ :=
  ((s.forward.head?.or s.backward.head?).map fun p => responseTime p.time).getD now

def perform (db : Database α) (s : TableInfiniteData α) : Scroll → TableInfiniteData α
  | .loadMoreBelowRows now => fetchOlderLogsAsync db (toISOString (lastTime s now)) s
  | .loadMoreAboveRows now => fetchNewerLogsAsync db (toISOString (firstTime s now)) s

/-- The table after its initial load for a selected time. -/
def load (db : Database α) (selected : ℤ) (s : TableInfiniteData α) : TableInfiniteData α :=
  executeTableOlderQueryAsync db selected (executeTableNewerQueryAsync db selected s)

/-! ### What the queries select -/

/-- The windows are five seconds at least. -/
theorem olderLower_le (count : ℤ → ℤ → ℕ) (upper currentLower : ℤ) (secondsBack : ℕ) (h : 0 < secondsBack) :
    olderLower count upper currentLower secondsBack h ≤ currentLower := by
  fun_induction olderLower count upper currentLower secondsBack h with
  | case1 => exact le_refl _
  | case2 => exact le_refl _
  | case3 currentLower secondsBack h hlimit hcount ih => omega

theorem le_newerUpper (count : ℤ → ℤ → ℕ) (lower currentUpper : ℤ) (secondsForward : ℕ) (h : 0 < secondsForward) :
    currentUpper ≤ newerUpper count lower currentUpper secondsForward h := by
  fun_induction newerUpper count lower currentUpper secondsForward h with
  | case1 => exact le_refl _
  | case2 => exact le_refl _
  | case3 currentUpper secondsForward h hlimit hcount ih => omega

theorem holds_buildInfiniteScrollLogQuery {lower upper : ℤ} {filters : List (LogPoint α → Bool)} {p : LogPoint α} :
    (∀ c ∈ buildInfiniteScrollLogQuery lower upper filters, c.Holds p) ↔
      lower ≤ p.time ∧ p.time < upper ∧ ∀ f ∈ filters, f p = true := by
  unfold buildInfiniteScrollLogQuery buildInfiniteScrollWhereClause
  simp only [List.forall_mem_append, List.forall_mem_cons, List.forall_mem_map, Clause.Holds]
  simp [and_assoc]

/-- An answer is a page of the points that satisfy the filters. -/
theorem page_answer (db : Database α) (lower upper : ℤ) (order : Order) :
    Page (fun p => db.Satisfies p ∧ lower ≤ p.time ∧ p.time < upper) order.Rel INITIAL_LIMIT
      (db.answer ⟨buildInfiniteScrollLogQuery lower upper db.filters, order⟩) := by
  have hwindow : ∀ p, (p ∈ db.points ∧ ∀ c ∈ buildInfiniteScrollLogQuery lower upper db.filters, c.Holds p) ↔
      db.Satisfies p ∧ lower ≤ p.time ∧ p.time < upper := by
    intro p
    rw [holds_buildInfiniteScrollLogQuery]
    unfold Database.Satisfies
    tauto
  have h := db.answered ⟨buildInfiniteScrollLogQuery lower upper db.filters, order⟩
  exact ⟨fun p hp => (hwindow p).mp (h.mem p hp), h.nodup, h.ordered, h.length, fun p hp => h.rest p ((hwindow p).mpr hp)⟩

end Logs
end Chronograf
