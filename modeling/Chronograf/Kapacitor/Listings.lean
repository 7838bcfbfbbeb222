/-
# Listings come to an end, and miss nothing that was fetched

However the generator, the workers and the gatherer take turns, a listing comes
to an end after a bounded number of steps. If no request failed it has every
task once; but it never is an error, whatever failed.

Key definitions: `Listing.measure`, `Listing.InOrder`, `Listing.Counted`,
`Listing.AsPromised`.
Key theorem: `Listing.complete_iff`.
-/
import Chronograf.Kapacitor.ListTasks

namespace Chronograf
namespace Kapacitor

/-- A page is empty if and only if it begins after the last task. -/
theorem page_eq_nil_iff {α : Type} {tasks : List α} {limit offset : ℕ} (hlimit : 0 < limit) :
    page tasks limit offset = [] ↔ tasks.length ≤ offset := by
  unfold page
  rw [List.take_eq_nil_iff, List.drop_eq_nil_iff]
  constructor
  · rintro (h | h)
    · omega
    · exact h
  · exact .inr

/-- The tasks before a page, and the page. -/
theorem take_add_page {α : Type} (tasks : List α) (limit offset : ℕ) :
    tasks.take (limit + offset) = tasks.take offset ++ page tasks limit offset := by
  unfold page
  rw [Nat.add_comm, List.take_add]

namespace Listing

variable {α : Type} {tasks : List α} {fetchRate : ℕ} {s s' : Listing α}

@[simp] theorem setWorker_workers (i : Fin listTaskWorkers) (w : Worker α) :
    (s.setWorker i w).workers = Function.update s.workers i w := rfl

/-! ### A bound on the steps -/

/-- What is left to do at most for a worker, its own steps and what it hands over. -/
def weight (tasks : List α) (fetchRate : ℕ) : Worker α → ℕ
  | .receiving => 4
  | .requesting offset => if (page tasks fetchRate offset).length = 0 then 3 else 7
  | .closing => 2
  | .handing _ => 6
  | .exited => 0

/-- What is left to do at most: four steps for each task that no page was asked for. -/
def measure (tasks : List α) (fetchRate : ℕ) (s : Listing α) : ℕ :=
  4 * (tasks.length - s.offset) + ∑ i, weight tasks fetchRate (s.workers i) + s.taskChan.length +
    (!s.optsClosed).toNat + (!s.tasksClosed).toNat + (!s.gathered).toNat + s.returned.isNone.toNat

theorem measure_init : measure tasks fetchRate init = 4 * tasks.length + 20 := by
  have hworkers : ∑ _i : Fin listTaskWorkers, 4 = 16 := rfl
  simp only [measure, init, weight, hworkers]
  simp

/-- A page that is asked for is worth the tasks in it. -/
theorem weight_requesting (tasks : List α) (hrate : 0 < fetchRate) (offset : ℕ) :
    weight tasks fetchRate (.requesting offset) + 4 * (tasks.length - (fetchRate + offset)) <
      4 + 4 * (tasks.length - offset) := by
  have hpage : (page tasks fetchRate offset).length = 0 ↔ tasks.length ≤ offset := by
    rw [List.length_eq_zero_iff, page_eq_nil_iff hrate]
  simp only [weight, hpage]
  split_ifs <;> omega

theorem weight_received (tasks : List α) (fetchRate offset : ℕ) (ok : Bool) :
    weight tasks fetchRate (if ok then received (page tasks fetchRate offset) else .exited) <
      weight tasks fetchRate (.requesting offset) := by
  cases ok with
  | false =>
    simp only [weight]
    split_ifs <;> simp_all
  | true =>
    simp only [received, weight, if_true]
    split_ifs <;> simp_all

/-- Every step is one less. -/
theorem measure_lt (hrate : 0 < fetchRate) (e : Event) (h : step tasks fetchRate s e = some s') :
    measure tasks fetchRate s' < measure tasks fetchRate s := by
  rw [step_eq_some] at h
  have hworker := fun i w => sum_update_add s.workers (weight tasks fetchRate) i w
  have hreceiving : weight tasks fetchRate .receiving = 4 := rfl
  have hexited : weight tasks fetchRate .exited = 0 := rfl
  cases e with
  | send i =>
    obtain ⟨-, hw, rfl⟩ := h
    have hsum := hworker i (.requesting s.offset)
    have hlt := weight_requesting tasks hrate s.offset
    rw [hw, hreceiving] at hsum
    simp only [measure, setWorker]
    omega
  | stop =>
    obtain ⟨hopts, -, rfl⟩ := h
    simp [measure, hopts]
  | fetch i ok =>
    obtain ⟨offset, hw, rfl⟩ := h
    have hsum := hworker i (if ok then received (page tasks fetchRate offset) else .exited)
    have hlt := weight_received tasks fetchRate offset ok
    rw [hw] at hsum
    simp only [measure, setWorker]
    omega
  | close i =>
    obtain ⟨hw, rfl⟩ := h
    have hsum := hworker i .exited
    have hclosing : weight tasks fetchRate .closing = 2 := rfl
    rw [hw, hexited, hclosing] at hsum
    simp only [measure, setWorker]
    omega
  | hand i =>
    obtain ⟨resp, hw, -, rfl⟩ := h
    have hsum := hworker i .receiving
    have hhanding : weight tasks fetchRate (.handing resp) = 6 := rfl
    rw [hw, hreceiving, hhanding] at hsum
    simp only [measure, setWorker, List.length_append, List.length_singleton]
    omega
  | drain i =>
    obtain ⟨-, hw, rfl⟩ := h
    have hsum := hworker i .exited
    rw [hw, hexited, hreceiving] at hsum
    simp only [measure, setWorker]
    omega
  | gather =>
    obtain ⟨resp, rest, hchan, rfl⟩ := h
    simp [measure, hchan]
  | closeTasks =>
    obtain ⟨hclosed, -, rfl⟩ := h
    simp [measure, hclosed]
  | gathered =>
    obtain ⟨hgathered, -, -, rfl⟩ := h
    simp [measure, hgathered]
  | ret =>
    obtain ⟨-, hret, rfl⟩ := h
    simp [measure, hret]

/-! ### The order in which the parts end -/

/-- The channel of the workers is closed when all have exited, the gatherer ends
after that, and `ListTasks` returns last what was gathered. -/
structure InOrder (s : Listing α) : Prop where
  tasksClosed : s.tasksClosed = true → ∀ i, s.workers i = .exited
  gathered : s.gathered = true → s.tasksClosed = true ∧ s.taskChan = []
  returned : ∀ r, s.returned = some r → s.gathered = true ∧ r = .ok s.allTasks

theorem inOrder_init : InOrder (init : Listing α) := ⟨nofun, nofun, nofun⟩

/-- While a worker has not exited, nothing that comes after it has happened. -/
theorem InOrder.running (hs : InOrder s) {i : Fin listTaskWorkers} (hi : s.workers i ≠ .exited) :
    s.tasksClosed = false ∧ s.gathered = false ∧ s.returned = none := by
  have hclosed : s.tasksClosed = false := by
    by_contra h
    exact hi (hs.tasksClosed (Bool.not_eq_false _ ▸ h) i)
  have hgathered : s.gathered = false := by
    by_contra h
    have := (hs.gathered (Bool.not_eq_false _ ▸ h)).1
    rw [hclosed] at this
    cases this
  refine ⟨hclosed, hgathered, ?_⟩
  cases hr : s.returned with
  | none => rfl
  | some r =>
    have := (hs.returned r hr).1
    rw [hgathered] at this
    cases this

/-- Nothing has to be in order while the workers are running. -/
theorem inOrder_of_running (hclosed : s.tasksClosed = false) (hgathered : s.gathered = false)
    (hreturned : s.returned = none) : InOrder s := by
  refine ⟨fun h => ?_, fun h => ?_, fun r h => ?_⟩
  · rw [hclosed] at h
    cases h
  · rw [hgathered] at h
    cases h
  · rw [hreturned] at h
    cases h

theorem inOrder_step (hs : InOrder s) (e : Event) (h : step tasks fetchRate s e = some s') : InOrder s' := by
  rw [step_eq_some] at h
  cases e with
  | send i =>
    obtain ⟨-, hw, rfl⟩ := h
    obtain ⟨hclosed, hgathered, hreturned⟩ := hs.running (i := i) (by rw [hw]; simp)
    exact inOrder_of_running hclosed hgathered hreturned
  | stop =>
    obtain ⟨-, -, rfl⟩ := h
    exact ⟨hs.tasksClosed, hs.gathered, hs.returned⟩
  | fetch i ok =>
    obtain ⟨offset, hw, rfl⟩ := h
    obtain ⟨hclosed, hgathered, hreturned⟩ := hs.running (i := i) (by rw [hw]; simp)
    exact inOrder_of_running hclosed hgathered hreturned
  | close i =>
    obtain ⟨hw, rfl⟩ := h
    obtain ⟨hclosed, hgathered, hreturned⟩ := hs.running (i := i) (by rw [hw]; simp)
    exact inOrder_of_running hclosed hgathered hreturned
  | hand i =>
    obtain ⟨resp, hw, -, rfl⟩ := h
    obtain ⟨hclosed, hgathered, hreturned⟩ := hs.running (i := i) (by rw [hw]; simp)
    exact inOrder_of_running hclosed hgathered hreturned
  | drain i =>
    obtain ⟨-, hw, rfl⟩ := h
    obtain ⟨hclosed, hgathered, hreturned⟩ := hs.running (i := i) (by rw [hw]; simp)
    exact inOrder_of_running hclosed hgathered hreturned
  | gather =>
    obtain ⟨resp, rest, hchan, rfl⟩ := h
    have hnot : ¬ s.gathered = true := fun hg => by
      have := (hs.gathered hg).2
      rw [hchan] at this
      cases this
    exact ⟨hs.tasksClosed, fun hg => absurd hg hnot, fun r hr => absurd (hs.returned r hr).1 hnot⟩
  | closeTasks =>
    obtain ⟨hclosed, hexited, rfl⟩ := h
    exact ⟨fun _ => hexited, fun hg => ⟨rfl, (hs.gathered hg).2⟩, hs.returned⟩
  | gathered =>
    obtain ⟨hgathered, hclosed, hchan, rfl⟩ := h
    exact ⟨hs.tasksClosed, fun _ => ⟨hclosed, hchan⟩, fun r hr => ⟨rfl, (hs.returned r hr).2⟩⟩
  | ret =>
    obtain ⟨hgathered, hret, rfl⟩ := h
    exact ⟨hs.tasksClosed, hs.gathered, fun r hr => ⟨hgathered, (Option.some.inj hr).symm⟩⟩

/-! ### Something can always happen -/

/-- No request fails in this event. -/
def Event.Succeeds : Event → Prop
  | .fetch _ ok => ok = true
  | _ => True

/-- A worker that has not exited can go on, or the gatherer makes room for it. -/
theorem worker_goes_on {i : Fin listTaskWorkers} (hi : s.workers i ≠ .exited) :
    ∃ e s', e.Succeeds ∧ step tasks fetchRate s e = some s' := by
  simp only [step_eq_some]
  cases hw : s.workers i with
  | receiving =>
    cases hopts : s.optsClosed with
    | false => exact ⟨.send i, _, trivial, hopts, hw, rfl⟩
    | true => exact ⟨.drain i, _, trivial, hopts, hw, rfl⟩
  | requesting offset => exact ⟨.fetch i true, _, rfl, offset, hw, rfl⟩
  | closing => exact ⟨.close i, _, trivial, hw, rfl⟩
  | handing resp =>
    by_cases hroom : s.taskChan.length < listTaskWorkers
    · exact ⟨.hand i, _, trivial, resp, hw, hroom, rfl⟩
    · cases hchan : s.taskChan with
      | nil =>
        rw [hchan] at hroom
        exact absurd (Nat.succ_pos 3) hroom
      | cons resp rest => exact ⟨.gather, _, trivial, resp, rest, hchan, rfl⟩
  | exited => exact absurd hw hi

theorem goes_on (hret : s.returned = none) :
    ∃ e s', e.Succeeds ∧ step tasks fetchRate s e = some s' := by
  cases hg : s.gathered with
  | true => exact ⟨.ret, _, trivial, step_eq_some.mpr ⟨hg, hret, rfl⟩⟩
  | false =>
    cases hc : s.tasksClosed with
    | true =>
      cases hchan : s.taskChan with
      | nil => exact ⟨.gathered, _, trivial, step_eq_some.mpr ⟨hg, hc, hchan, rfl⟩⟩
      | cons resp rest => exact ⟨.gather, _, trivial, step_eq_some.mpr ⟨resp, rest, hchan, rfl⟩⟩
    | false =>
      by_cases hall : ∀ i, s.workers i = .exited
      · exact ⟨.closeTasks, _, trivial, step_eq_some.mpr ⟨hc, hall, rfl⟩⟩
      · obtain ⟨i, hi⟩ := not_forall.mp hall
        exact worker_goes_on hi

/-! ### What is fetched is not lost -/

/-- The tasks a worker has, or has asked for. -/
def held (tasks : List α) (fetchRate : ℕ) : Worker α → Multiset α
  | .requesting offset => page tasks fetchRate offset
  | .handing resp => resp
  | _ => 0

/-- What is known of a worker, and of the tasks if it ends by itself. -/
def Known (tasks : List α) (fetchRate offset : ℕ) (done : Bool) : Worker α → Prop
  | .requesting offset' => fetchRate + offset' ≤ offset
  | .closing => tasks.length ≤ offset
  | .exited => done = true
  | _ => True

theorem Known.mono {offset offset' : ℕ} {done done' : Bool} (hle : offset ≤ offset') (hd : done = true → done' = true)
    {w : Worker α} (h : Known tasks fetchRate offset done w) : Known tasks fetchRate offset' done' w := by
  cases w with
  | requesting o => exact Nat.le_trans h hle
  | closing => exact Nat.le_trans h hle
  | exited => exact hd h
  | receiving => trivial
  | handing resp => trivial

/-- While no request fails, the tasks before the next page are gathered, on the
way or asked for, each once; and who ends does so because there are no more. -/
structure Counted (tasks : List α) (fetchRate : ℕ) (s : Listing α) : Prop where
  counted : (s.allTasks : Multiset α) + (s.taskChan.flatten : Multiset α) +
    ∑ i, held tasks fetchRate (s.workers i) = (tasks.take s.offset : Multiset α)
  workers : ∀ i, Known tasks fetchRate s.offset s.done (s.workers i)
  done : s.done = true → tasks.length ≤ s.offset
  optsClosed : s.optsClosed = true → s.done = true

theorem counted_init : Counted tasks fetchRate init where
  counted := by simp [init, held]
  workers _ := trivial
  done h := nomatch h
  optsClosed h := nomatch h

/-- A worker that goes on, and the others. -/
theorem setWorker_all {P : Worker α → Prop} {i : Fin listTaskWorkers} {w : Worker α} (hw : P w)
    (hs : ∀ j, P (s.workers j)) : ∀ j, P ((s.setWorker i w).workers j) := by
  intro j
  by_cases hj : j = i
  · subst hj
    simpa using hw
  · simpa [hj] using hs j

theorem counted_step (hrate : 0 < fetchRate) (hs : Counted tasks fetchRate s) (e : Event) (hok : e.Succeeds)
    (h : step tasks fetchRate s e = some s') : Counted tasks fetchRate s' := by
  rw [step_eq_some] at h
  have hheld := fun i w => sum_update_add s.workers (held tasks fetchRate) i w
  have hnone : held tasks fetchRate .receiving = 0 := rfl
  have hexited : held tasks fetchRate .exited = 0 := rfl
  have hclosing : held tasks fetchRate .closing = 0 := rfl
  cases e with
  | send i =>
    obtain ⟨-, hw, rfl⟩ := h
    have hsum := hheld i (.requesting s.offset)
    have hle : s.offset ≤ fetchRate + s.offset := Nat.le_add_left ..
    rw [hw, hnone, add_zero] at hsum
    refine ⟨?_, ?_, fun hd => (hs.done hd).trans hle, hs.optsClosed⟩
    · show (s.allTasks : Multiset α) + (s.taskChan.flatten : Multiset α) +
        ∑ j, held tasks fetchRate (Function.update s.workers i (.requesting s.offset) j) =
          (tasks.take (fetchRate + s.offset) : Multiset α)
      rw [hsum, ← add_assoc, hs.counted, take_add_page, ← Multiset.coe_add]
      rfl
    · exact setWorker_all le_rfl fun j => (hs.workers j).mono hle id
  | stop =>
    obtain ⟨-, hd, rfl⟩ := h
    exact ⟨hs.counted, hs.workers, hs.done, fun _ => hd⟩
  | fetch i ok =>
    obtain ⟨offset, hw, rfl⟩ := h
    obtain rfl : ok = true := hok
    have hi := hs.workers i
    have hsum := hheld i (received (page tasks fetchRate offset))
    have hreceived : held tasks fetchRate (received (page tasks fetchRate offset)) =
        held tasks fetchRate (.requesting offset) := by
      unfold received
      split_ifs with hnil
      · rw [hclosing]
        simp [held, List.length_eq_zero_iff.mp hnil]
      · rfl
    rw [hw, hreceived, add_left_inj] at hsum
    rw [hw] at hi
    refine ⟨?_, setWorker_all ?_ hs.workers, hs.done, hs.optsClosed⟩
    · show (s.allTasks : Multiset α) + (s.taskChan.flatten : Multiset α) +
        ∑ j, held tasks fetchRate (Function.update s.workers i (received _) j) = (tasks.take s.offset : Multiset α)
      rw [hsum, hs.counted]
    · rw [if_pos rfl]
      unfold received
      split_ifs with hnil
      · have hend := (page_eq_nil_iff hrate).mp (List.length_eq_zero_iff.mp hnil)
        have hle : fetchRate + offset ≤ s.offset := hi
        show tasks.length ≤ s.offset
        omega
      · trivial
  | close i =>
    obtain ⟨hw, rfl⟩ := h
    have hi := hs.workers i
    have hsum := hheld i .exited
    rw [hw, hexited, hclosing, add_zero, add_zero] at hsum
    rw [hw] at hi
    refine ⟨?_, ?_, fun _ => hi, fun _ => rfl⟩
    · show (s.allTasks : Multiset α) + (s.taskChan.flatten : Multiset α) +
        ∑ j, held tasks fetchRate (Function.update s.workers i .exited j) = (tasks.take s.offset : Multiset α)
      rw [hsum, hs.counted]
    · exact setWorker_all rfl fun j => (hs.workers j).mono le_rfl fun _ => rfl
  | hand i =>
    obtain ⟨resp, hw, -, rfl⟩ := h
    have hsum := hheld i .receiving
    rw [hw, hnone, add_zero] at hsum
    refine ⟨?_, setWorker_all trivial hs.workers, hs.done, hs.optsClosed⟩
    show _ + ((s.taskChan ++ [resp]).flatten : Multiset α) +
      ∑ j, held tasks fetchRate (Function.update s.workers i .receiving j) = (tasks.take s.offset : Multiset α)
    rw [← hs.counted, ← hsum, List.flatten_append, ← Multiset.coe_add]
    simp only [held, List.flatten_cons, List.flatten_nil, List.append_nil, setWorker]
    abel
  | drain i =>
    obtain ⟨hopts, hw, rfl⟩ := h
    have hsum := hheld i .exited
    rw [hw, hexited, hnone, add_zero, add_zero] at hsum
    refine ⟨?_, setWorker_all (hs.optsClosed hopts) hs.workers, hs.done, hs.optsClosed⟩
    show (s.allTasks : Multiset α) + (s.taskChan.flatten : Multiset α) +
      ∑ j, held tasks fetchRate (Function.update s.workers i .exited j) = (tasks.take s.offset : Multiset α)
    rw [hsum, hs.counted]
  | gather =>
    obtain ⟨resp, rest, hchan, rfl⟩ := h
    refine ⟨?_, hs.workers, hs.done, hs.optsClosed⟩
    rw [← hs.counted, hchan]
    simp [← Multiset.coe_add, add_assoc]
  | closeTasks =>
    obtain ⟨-, -, rfl⟩ := h
    exact ⟨hs.counted, hs.workers, hs.done, hs.optsClosed⟩
  | gathered =>
    obtain ⟨-, -, -, rfl⟩ := h
    exact ⟨hs.counted, hs.workers, hs.done, hs.optsClosed⟩
  | ret =>
    obtain ⟨-, -, rfl⟩ := h
    exact ⟨hs.counted, hs.workers, hs.done, hs.optsClosed⟩

/-- A listing that returns without a failed request returns every task once. -/
theorem returned_complete (horder : InOrder s) (hs : Counted tasks fetchRate s) {r : Except String (List α)}
    (hr : s.returned = some r) : r = .ok s.allTasks ∧ s.allTasks.Perm tasks := by
  obtain ⟨hgathered, hret⟩ := horder.returned r hr
  obtain ⟨hclosed, hchan⟩ := horder.gathered hgathered
  have hexited := horder.tasksClosed hclosed
  have hheld : ∑ i, held tasks fetchRate (s.workers i) = 0 :=
    Finset.sum_eq_zero fun i _ => by rw [hexited i]; rfl
  have hdone : s.done = true := by
    have hknown := hs.workers ⟨0, Nat.succ_pos 3⟩
    rw [hexited] at hknown
    exact hknown
  have hcounted := hs.counted
  rw [hchan, hheld, List.take_of_length_le (hs.done hdone), add_zero] at hcounted
  refine ⟨hret, Multiset.coe_eq_coe.mp ?_⟩
  simpa using hcounted

/-- What is expected of a listing that returns `r` after the events: every task
once, or an error if a request failed. -/
def AsPromised (tasks : List α) (events : List Event) (r : Except String (List α)) : Prop :=
  ((∀ e ∈ events, e.Succeeds) → ∃ all, r = .ok all ∧ all.Perm tasks) ∧
    ((∃ e ∈ events, ¬ e.Succeeds) → ∃ err, r = .error err)

/-- Whatever the order of the steps, there are boundedly many, one can be made
until the listing has returned, and what it returns is as expected if and only if
no request failed. -/
theorem complete_iff (hrate : 0 < fetchRate) (events : List Event)
    (h : Events.run (step tasks fetchRate) init events = some s) :
    events.length ≤ 4 * tasks.length + 20 ∧
      (s.returned = none → ∃ e s', e.Succeeds ∧ step tasks fetchRate s e = some s') ∧
      ∀ r, s.returned = some r → (AsPromised tasks events r ↔ ∀ e ∈ events, e.Succeeds) := by
  have horder : InOrder s :=
    Events.run_keeps (P := fun _ => True) (fun _ e _ hs _ => inOrder_step hs e) events (fun _ _ => trivial)
      inOrder_init h
  refine ⟨?_, goes_on, fun r hr => ?_⟩
  · have hle := Events.length_le (fun _ e _ => measure_lt hrate e) events h
    rw [measure_init] at hle
    exact (Nat.le_add_right ..).trans hle
  · constructor
    · intro hpromised
      by_contra hfailed
      push Not at hfailed
      obtain ⟨err, herr⟩ := hpromised.2 hfailed
      rw [(horder.returned r hr).2] at herr
      cases herr
    · intro hok
      have hcounted : Counted tasks fetchRate s :=
        Events.run_keeps (fun _ e _ hs he => counted_step hrate hs e he) events hok counted_init h
      refine ⟨fun _ => ⟨s.allTasks, returned_complete horder hcounted hr⟩, ?_⟩
      rintro ⟨e, he, hnot⟩
      exact absurd (hok e he) hnot

/-! ### Two listings of one task -/

/-- The first worker gets the task and, with the next page, the end. -/
def sampleEvents : List Event :=
  [.send 0, .fetch 0 true, .hand 0, .gather, .send 0, .fetch 0 true, .close 0, .stop, .drain 1, .drain 2, .drain 3,
    .closeTasks, .gathered, .ret]

theorem complete_iff_sample : AsPromised ["cpu"] sampleEvents (.ok ["cpu"]) := by
  obtain ⟨s, hs, hr⟩ : ∃ s, Events.run (step ["cpu"] 1) init sampleEvents = some s ∧ s.returned = some (.ok ["cpu"]) :=
    ⟨_, rfl, rfl⟩
  refine ((complete_iff (by decide) sampleEvents hs).2.2 _ hr).mpr ?_
  simp [sampleEvents, Event.Succeeds]

/-- The first worker's request fails, and another one finds the end. -/
def failingEvents : List Event :=
  [.send 0, .fetch 0 false, .send 1, .fetch 1 true, .close 1, .stop, .drain 2, .drain 3, .closeTasks, .gathered, .ret]

theorem task_missing_without_error :
    ¬ ∀ (tasks : List String) (fetchRate : ℕ), 0 < fetchRate → ∀ (events : List Event) (s : Listing String),
      Events.run (step tasks fetchRate) init events = some s →
        ∀ r, s.returned = some r → AsPromised tasks events r := by
  intro h
  obtain ⟨s, hs, hr⟩ : ∃ s, Events.run (step ["cpu"] 1) init failingEvents = some s ∧ s.returned = some (.ok []) :=
    ⟨_, rfl, rfl⟩
  have hpromised := h ["cpu"] 1 (by decide) failingEvents s hs _ hr
  obtain ⟨err, herr⟩ := hpromised.2 ⟨.fetch 0 false, by simp [failingEvents], by simp [Event.Succeeds]⟩
  cases herr

end Listing

end Kapacitor
end Chronograf
