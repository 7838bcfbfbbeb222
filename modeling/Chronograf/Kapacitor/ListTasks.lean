/-
# The listing of all tasks

`PaginatingKapaClient.ListTasks` of `kapacitor/kapa_client.go`: a generator hands
out pages to be fetched, four workers fetch them, and a gatherer collects what
they find. Each part is a state, and `step` is what one of them does next; how
the parts take turns is up to the run.

Key definitions: `page`, `Listing`, `Listing.Event`, `Listing.step`.
-/
import Chronograf.Lib.Events

namespace Chronograf
namespace Kapacitor

abbrev listTaskWorkers : ℕ := 4

/-- Kapacitor's answer to a request with the limit and the offset, from the list of its tasks. -/
def page {α : Type} (tasks : List α) (limit offset : ℕ) : List α := (tasks.drop offset).take limit

/-- Where a worker is in `fetchFromKapacitor`. -/
inductive Worker (α : Type)
  | receiving
  | requesting (offset : ℕ)
  | closing
  | handing (resp : List α)
  | exited

/-- A listing under way: the next offset of the generator and whether it has
closed its channel, the workers, the channels, and what is gathered and returned. -/
structure Listing (α : Type) where
  offset : ℕ
  optsClosed : Bool
  workers : Fin listTaskWorkers → Worker α
  done : Bool
  taskChan : List (List α)
  tasksClosed : Bool
  allTasks : List α
  gathered : Bool
  returned : Option (Except String (List α))

namespace Listing

variable {α : Type}

def init : Listing α := ⟨0, false, fun _ => .receiving, false, [], false, [], false, none⟩

/-- What one of the parts does: the generator sends options or stops, a worker
gets its reply (`ok`, or an error), closes `done`, hands over its page or finds
no more options, the gatherer takes a page or finds no more, and `ListTasks`
closes the channel of the workers and returns. -/
inductive Event
  | send (i : Fin listTaskWorkers)
  | stop
  | fetch (i : Fin listTaskWorkers) (ok : Bool)
  | close (i : Fin listTaskWorkers)
  | hand (i : Fin listTaskWorkers)
  | drain (i : Fin listTaskWorkers)
  | gather
  | closeTasks
  | gathered
  | ret

/-- The worker `i` goes on from where it is. -/
def setWorker (s : Listing α) (i : Fin listTaskWorkers) (w : Worker α) : Listing α :=
  { s with workers := Function.update s.workers i w }

/-- Where the reply takes a worker: an empty page is the end. -/
def received (resp : List α) : Worker α := if resp.length = 0 then .closing else .handing resp

instance (w : Worker α) : Decidable (w = .exited) :=
  match w with
  | .exited => .isTrue rfl
  | .receiving | .requesting _ | .closing | .handing _ => .isFalse nofun

variable (tasks : List α) (fetchRate : ℕ)

def step (s : Listing α) : Event → Option (Listing α)
  | .send i =>
    match s.optsClosed, s.workers i with
    | false, .receiving => some { s.setWorker i (.requesting s.offset) with offset := fetchRate + s.offset }
    | _, _ => none
  | .stop => if s.optsClosed = false ∧ s.done = true then some { s with optsClosed := true } else none
  | .fetch i ok =>
    match s.workers i with
    | .requesting offset =>
      some (s.setWorker i (if ok then received (page tasks fetchRate offset) else .exited))
    | _ => none
  | .close i =>
    match s.workers i with
    | .closing => some { s.setWorker i .exited with done := true }
    | _ => none
  | .hand i =>
    match s.workers i with
    | .handing resp =>
      if s.taskChan.length < listTaskWorkers then
        some { s.setWorker i .receiving with taskChan := s.taskChan ++ [resp] }
      else none
    | _ => none
  | .drain i =>
    match s.optsClosed, s.workers i with
    | true, .receiving => some (s.setWorker i .exited)
    | _, _ => none
  | .gather =>
    match s.taskChan with
    | resp :: rest => some { s with taskChan := rest, allTasks := s.allTasks ++ resp }
    | [] => none
  | .closeTasks =>
    if s.tasksClosed = false ∧ ∀ i, s.workers i = .exited then some { s with tasksClosed := true } else none
  | .gathered =>
    if s.gathered = false ∧ s.tasksClosed = true ∧ s.taskChan.length = 0 then some { s with gathered := true }
    else none
  | .ret =>
    if s.gathered = true ∧ s.returned.isNone then some { s with returned := some (.ok s.allTasks) } else none

variable {tasks fetchRate} {s s' : Listing α}

/-! ### What a step does -/

/-- The state `s'` that each part leaves, and what it needs in `s`. -/
def Moves (tasks : List α) (fetchRate : ℕ) (s s' : Listing α) : Event → Prop
  | .send i => s.optsClosed = false ∧ s.workers i = .receiving ∧
      s' = { s.setWorker i (.requesting s.offset) with offset := fetchRate + s.offset }
  | .stop => s.optsClosed = false ∧ s.done = true ∧ s' = { s with optsClosed := true }
  | .fetch i ok => ∃ offset, s.workers i = .requesting offset ∧
      s' = s.setWorker i (if ok then received (page tasks fetchRate offset) else .exited)
  | .close i => s.workers i = .closing ∧ s' = { s.setWorker i .exited with done := true }
  | .hand i => ∃ resp, s.workers i = .handing resp ∧ s.taskChan.length < listTaskWorkers ∧
      s' = { s.setWorker i .receiving with taskChan := s.taskChan ++ [resp] }
  | .drain i => s.optsClosed = true ∧ s.workers i = .receiving ∧ s' = s.setWorker i .exited
  | .gather => ∃ resp rest, s.taskChan = resp :: rest ∧
      s' = { s with taskChan := rest, allTasks := s.allTasks ++ resp }
  | .closeTasks => s.tasksClosed = false ∧ (∀ i, s.workers i = .exited) ∧ s' = { s with tasksClosed := true }
  | .gathered => s.gathered = false ∧ s.tasksClosed = true ∧ s.taskChan = [] ∧ s' = { s with gathered := true }
  | .ret => s.gathered = true ∧ s.returned = none ∧ s' = { s with returned := some (.ok s.allTasks) }

theorem step_eq_some {e : Event} : step tasks fetchRate s e = some s' ↔ Moves tasks fetchRate s s' e := by
  cases e with
  | send i =>
    simp only [step, Moves]
    cases s.optsClosed <;> cases s.workers i <;> simp [@eq_comm _ s']
  | stop => simp only [step, Moves, Option.ite_none_right_eq_some, Option.some.injEq, and_assoc, @eq_comm _ s']
  | fetch i ok =>
    simp only [step, Moves]
    cases s.workers i <;> simp [@eq_comm _ s']
  | close i =>
    simp only [step, Moves]
    cases s.workers i <;> simp [@eq_comm _ s']
  | hand i =>
    simp only [step, Moves]
    cases s.workers i <;> simp [@eq_comm _ s']
  | drain i =>
    simp only [step, Moves]
    cases s.optsClosed <;> cases s.workers i <;> simp [@eq_comm _ s']
  | gather =>
    simp only [step, Moves]
    cases s.taskChan <;> simp [@eq_comm _ s']
  | closeTasks =>
    simp only [step, Moves, Option.ite_none_right_eq_some, Option.some.injEq, and_assoc, @eq_comm _ s']
  | gathered =>
    simp only [step, Moves, Option.ite_none_right_eq_some, Option.some.injEq, and_assoc, List.length_eq_zero_iff,
      @eq_comm _ s']
  | ret =>
    simp only [step, Moves, Option.ite_none_right_eq_some, Option.some.injEq, and_assoc, Option.isNone_iff_eq_none,
      @eq_comm _ s']

end Listing

end Kapacitor
end Chronograf
