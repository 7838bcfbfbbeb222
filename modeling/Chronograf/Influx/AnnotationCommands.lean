/-
# The commands of the annotation store

What the store relies on of the database: the two commands it builds select the
points they say, that for an ID as long as the ID does not end its quote. A
small reader of just these commands is such a database.

Key definitions: `Plain`, `Database.Documented`, `reader`.
Key theorem: `reader_documented`.
-/
import Chronograf.Influx.Annotations

namespace Chronograf
namespace Annotations

/-- Text that ends where its quote does. -/
def Plain (id : String) : Prop := ∀ c ∈ id.toList, c ≠ '\'' ∧ c ≠ '\\' ∧ c ≠ '\n'

instance (id : String) : Decidable (Plain id) := List.decidableBAll _ id.toList

/-- What the store relies on: the two commands select the points they say. -/
structure Database.Documented (db : Database) : Prop where
  getAnnotationID : ∀ id, Plain id → db.select (getAnnotationID id) = some fun p => p.id = id && !p.deleted
  allAnnotations : ∀ start stop, db.select (allAnnotations start stop "") =
    some fun p => !p.deleted && start ≤ p.time && p.startTime ≤ stop

/-! ### A reader of the commands -/

/-- What follows `pre`. -/
def strip : List Char → List Char → Option (List Char)
  | [], cs => some cs
  | _ :: _, [] => none
  | p :: pre, c :: cs => if p = c then strip pre cs else none

def getCommand : String := "SELECT * FROM \"annotations\" WHERE \"id\"='"
def getEnd : String := "' AND \"deleted\"=false ORDER BY time DESC"
def allCommand : String := "SELECT * FROM \"annotations\" WHERE \"deleted\"=false AND time >= "
def allMiddle : String := "ns and \"start_time\" <= "
def allEnd : String := "  ORDER BY time DESC"

/-- A character of a text between quotes. -/
def isPlain (c : Char) : Bool := c ≠ '\'' && c ≠ '\\' && c ≠ '\n'

def readGet (cs : List Char) : Option (Point → Bool) :=
  (strip getCommand.toList cs).bind fun cs =>
    if cs.dropWhile isPlain = getEnd.toList then
      some fun p => p.id = String.ofList (cs.takeWhile isPlain) && !p.deleted
    else none

def isSigned (c : Char) : Bool := c.isDigit || c = '-'

/-- An integer and what follows it. -/
def readInteger (cs : List Char) : Option (ℤ × List Char) :=
  (Marshal.integer (String.ofList (cs.takeWhile isSigned))).map fun i => (i, cs.dropWhile isSigned)

def readAll (cs : List Char) : Option (Point → Bool) :=
  (strip allCommand.toList cs).bind fun cs =>
    (readInteger cs).bind fun (start, cs) =>
      (strip allMiddle.toList cs).bind fun cs =>
        (readInteger cs).bind fun (stop, cs) =>
          if cs = allEnd.toList then some fun p => !p.deleted && start ≤ p.time && p.startTime ≤ stop else none

/-- The database that knows the two commands. -/
def reader : Database where
  select query := (readGet query.toList).or (readAll query.toList)

theorem strip_append : ∀ pre cs : List Char, strip pre (pre ++ cs) = some cs
  | [], _ => rfl
  | p :: pre, cs => by
    rw [List.cons_append, strip, if_pos rfl]
    exact strip_append pre cs

/-- A text that goes another way than `pre` does not start with it. -/
theorem strip_append_none : ∀ {pre cs : List Char}, pre.length ≤ cs.length → strip pre cs = none →
    ∀ rest, strip pre (cs ++ rest) = none
  | [], _, _, h, _ => nomatch h
  | _ :: _, [], hlen, _, _ => nomatch hlen
  | p :: pre, c :: cs, hlen, h, rest => by
    rw [List.cons_append, strip]
    rw [strip] at h
    split_ifs at h ⊢ with hpc
    · exact strip_append_none (Nat.le_of_succ_le_succ hlen) h rest
    · rfl

theorem isPlain_iff {c : Char} : isPlain c ↔ c ≠ '\'' ∧ c ≠ '\\' ∧ c ≠ '\n' := by
  simp [isPlain, and_assoc]

theorem takeWhile_dropWhile_stop {p : Char → Bool} {l : List Char} {c : Char} (rest : List Char) (hl : ∀ x ∈ l, p x) (hc : p c = false) :
    (l ++ c :: rest).takeWhile p = l ∧ (l ++ c :: rest).dropWhile p = c :: rest := by
  rw [List.takeWhile_append_of_pos hl, List.dropWhile_append_of_pos hl]
  simp [hc]

theorem isSigned_repr (i : ℤ) : ∀ c ∈ (Int.repr i).toList, isSigned c := by
  have hnat : ∀ n : ℕ, ∀ c ∈ (Nat.repr n).toList, isSigned c := by
    intro n c hc
    rw [Nat.toList_repr] at hc
    rw [isSigned, Nat.isDigit_of_mem_toDigits (by decide) (by decide) hc, Bool.true_or]
  cases i with
  | ofNat n => exact hnat n
  | negSucc n =>
    intro c hc
    have htext : (Int.repr (Int.negSucc n)).toList = '-' :: (Nat.repr (n + 1)).toList := by
      show ("-" ++ Nat.repr (n + 1)).toList = _
      rw [String.toList_append]
      rfl
    rw [htext] at hc
    rcases List.mem_cons.mp hc with rfl | hc
    · rfl
    · exact hnat (n + 1) c hc

theorem readInteger_repr (i : ℤ) {c : Char} (hc : isSigned c = false) (rest : List Char) :
    readInteger ((Int.repr i).toList ++ c :: rest) = some (i, c :: rest) := by
  obtain ⟨htake, hdrop⟩ := takeWhile_dropWhile_stop rest (isSigned_repr i) hc
  rw [readInteger, htake, hdrop, String.ofList_toList, Marshal.integer_repr]
  rfl

theorem readGet_getAnnotationID {id : String} (h : Plain id) :
    readGet (getAnnotationID id).toList = some fun p => p.id = id && !p.deleted := by
  have htext : (getAnnotationID id).toList = getCommand.toList ++ (id.toList ++ getEnd.toList) := by
    show (getCommand ++ id ++ getEnd).toList = _
    rw [String.toList_append, String.toList_append, List.append_assoc]
  have hend : getEnd.toList = '\'' :: getEnd.toList.tail := by decide +kernel
  obtain ⟨htake, hdrop⟩ := takeWhile_dropWhile_stop getEnd.toList.tail
    (fun c hc => isPlain_iff.mpr (h c hc)) (show isPlain '\'' = false by decide)
  rw [← hend] at htake hdrop
  rw [readGet, htext, strip_append, Option.bind_some, htake, hdrop, if_pos rfl, String.ofList_toList]

theorem toList_allAnnotations (start stop : ℤ) : (allAnnotations start stop "").toList =
    allCommand.toList ++ (start.repr.toList ++ (allMiddle.toList ++ (stop.repr.toList ++ allEnd.toList))) := by
  have hend : " ".toList ++ ("".toList ++ " ORDER BY time DESC".toList) = allEnd.toList := by decide +kernel
  show (allCommand ++ start.repr ++ allMiddle ++ stop.repr ++ " " ++ "" ++ " ORDER BY time DESC").toList = _
  rw [String.toList_append, String.toList_append, String.toList_append, String.toList_append, String.toList_append,
    String.toList_append, List.append_assoc, List.append_assoc, List.append_assoc, List.append_assoc,
    List.append_assoc, hend]

theorem readAll_allAnnotations (start stop : ℤ) :
    readAll (allAnnotations start stop "").toList =
      some fun p => !p.deleted && start ≤ p.time && p.startTime ≤ stop := by
  have hmiddle : allMiddle.toList = 'n' :: allMiddle.toList.tail := by decide +kernel
  have hend : allEnd.toList = ' ' :: allEnd.toList.tail := by decide +kernel
  have hstart := readInteger_repr start (c := 'n') (by decide) (allMiddle.toList.tail ++ (stop.repr.toList ++ allEnd.toList))
  have hstop := readInteger_repr stop (c := ' ') (by decide) allEnd.toList.tail
  rw [← List.cons_append, ← hmiddle] at hstart
  rw [← hend] at hstop
  rw [readAll, toList_allAnnotations, strip_append, Option.bind_some, hstart]
  simp only [Option.bind_some, strip_append, hstop, if_pos]

theorem reader_documented : reader.Documented where
  getAnnotationID id hid := by
    show (readGet _).or _ = _
    rw [readGet_getAnnotationID hid]
    rfl
  allAnnotations start stop := by
    have hget : readGet (allAnnotations start stop "").toList = none := by
      have hstrip : strip getCommand.toList (allAnnotations start stop "").toList = none := by
        rw [toList_allAnnotations]
        exact strip_append_none (by decide +kernel) (by decide +kernel) _
      rw [readGet, hstrip]
      rfl
    show (readGet _).or _ = _
    rw [hget, readAll_allAnnotations]
    rfl

end Annotations
end Chronograf
