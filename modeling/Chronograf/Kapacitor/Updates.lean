/-
# Updates of running alerts

`Client.update` reads the status of a task, changes and disables it, and
enables it again. Of a task that is enabled this keeps the status only when
nothing is changed, or when the last reply is lost: what the update returns is
the task as it was while disabled.

Key definitions: `KeepsStatus`, `Client.Untouched`.
Key theorem: `Client.update_keeps_status_iff`.
-/
import Chronograf.Kapacitor.Client
import Chronograf.Lib.Remote

namespace Chronograf
namespace Kapacitor

open ClientV1 (TaskStatus Tasks UpdateTaskOptions)

variable {Nodes : Type}

/-- What a call returns and leaves keeps the status of the task at `href`: a task
that is returned reports it, and after an error the task may as well be
unchanged. -/
def KeepsStatus (tasks : Tasks) (href : String) : Except Failure (Task Nodes) × Tasks → Prop
  | (.ok task, tasks') => ∃ t t', tasks href = some t ∧ tasks' href = some t' ∧ t'.status = t.status ∧
      task.rule.status = t.status.string
  | (.error _, tasks') => tasks' href = tasks href ∨
      ∃ t t', tasks href = some t ∧ tasks' href = some t' ∧ t'.status = t.status

section KeepsStatus

variable {tasks tasks' : Tasks} {href : String} {t t' : ClientV1.Task}

theorem keepsStatus_error {e : Failure} (ht : tasks href = some t) (ht' : tasks' href = some t') :
    KeepsStatus tasks href ((.error e, tasks') : Except Failure (Task Nodes) × Tasks) ↔ t'.status = t.status := by
  simp only [KeepsStatus, ht, ht']
  constructor
  · rintro (h | ⟨u, u', hu, hu', h⟩)
    · rw [Option.some.inj h]
    · rw [Option.some.inj hu, Option.some.inj hu', h]
  · exact fun h => .inr ⟨t, t', rfl, rfl, h⟩

theorem keepsStatus_ok {task : Task Nodes} (ht : tasks href = some t) (ht' : tasks' href = some t') :
    KeepsStatus tasks href (.ok task, tasks') ↔ t'.status = t.status ∧ task.rule.status = t.status.string := by
  simp only [KeepsStatus, ht, ht']
  constructor
  · rintro ⟨u, u', hu, hu', h⟩
    rw [Option.some.inj hu, Option.some.inj hu']
    exact h
  · exact fun h => ⟨t, t', rfl, rfl, h⟩

end KeepsStatus

namespace Client

variable (c : Client Nodes) (K : ClientV1.Service) (href : String) (rule : TaskRule Nodes)

/-! ### The options of an update -/

/-- Both kinds of update disable the task. -/
theorem updateOptions_status {opt : UpdateTaskOptions} (h : c.updateOptions rule = .ok opt) :
    opt.status = some .disabled := by
  unfold updateOptions at h
  cases hq : rule.query with
  | none =>
    simp only [hq, updateFromTick, bind, Except.bind] at h
    split at h
    · cases h
    · cases h
      rfl
  | some q =>
    simp only [hq, updateFromQueryConfig, bind, Except.bind] at h
    split at h
    · cases h
    · cases h
      rfl

/-! ### The requests of an update -/

section Requests

variable {c K href rule} {replies : ℕ → Reply} {tasks : Tasks} {t : ClientV1.Task}

/-- Without a client, a task or options the update ends before the task is changed. -/
theorem through_update_early
    (h : c.kapaClient ≠ .ok () ∨ href = "" ∨ tasks href = none ∨ replies 0 ≠ .answered ∨
      ∀ opt, c.updateOptions rule ≠ .ok opt) :
    ∃ e, (c.update K href rule).through replies tasks = (.error e, tasks) := by
  unfold update
  rw [Tx.through_ofExcept_bind]
  cases hk : c.kapaClient with
  | error e => exact ⟨e, rfl⟩
  | ok u =>
    unfold status ClientV1.task
    simp only [hk]
    by_cases hhref : href = ""
    · rw [if_pos hhref]
      exact ⟨_, rfl⟩
    · rw [if_neg hhref, Tx.bind_assoc, Tx.through_ofExcept_bind]
      dsimp only
      rw [Tx.bind_assoc, Tx.through_view_bind]
      cases hr : replies 0 with
      | refused => exact ⟨_, rfl⟩
      | lost => exact ⟨_, rfl⟩
      | answered =>
        cases ht : tasks href with
        | none => exact ⟨_, rfl⟩
        | some t =>
          have hopt : ∀ opt, c.updateOptions rule ≠ .ok opt := by
            simpa [hk, hhref, hr, ht] using h
          show ∃ e, ((Tx.ofExcept (c.updateOptions rule) >>= _).through _ tasks) = _
          rw [Tx.through_ofExcept_bind]
          cases ho : c.updateOptions rule with
          | error e => exact ⟨e, rfl⟩
          | ok opt => exact absurd ho (hopt opt)

/-- The task is changed and disabled, and enabled again if it was before. -/
theorem through_update_late {opt : UpdateTaskOptions} (hk : c.kapaClient = .ok ()) (hhref : href ≠ "")
    (ht : tasks href = some t) (hr : replies 0 = .answered) (ho : c.updateOptions rule = .ok opt) :
    (c.update K href rule).through replies tasks =
      match replies 1 with
      | .refused => (.error ClientV1.unanswered, tasks)
      | .lost => (.error ClientV1.unanswered, Function.update tasks href (some (K.patch opt t)))
      | .answered => (c.reenable K href t.status >>= fun _ => pure (c.newTask (K.patch opt t))).through
          (fun n => replies (n + 2)) (Function.update tasks href (some (K.patch opt t))) := by
  unfold update
  rw [Tx.through_ofExcept_bind, hk]
  unfold status ClientV1.task
  simp only [hk, if_neg hhref]
  rw [Tx.bind_assoc, Tx.through_ofExcept_bind]
  dsimp only
  rw [Tx.bind_assoc, Tx.through_view_bind, hr, ht]
  show ((Tx.ofExcept (c.updateOptions rule) >>= _).through _ tasks) = _
  rw [Tx.through_ofExcept_bind, ho]
  unfold ClientV1.updateTask
  dsimp only
  rw [if_neg hhref, Tx.through_update_bind, ht]
  cases replies 1 <;> rfl

/-- Enabling the task again: only a request that was not refused does so. -/
theorem through_reenable (hk : c.kapaClient = .ok ()) (hhref : href ≠ "") (ht : tasks href = some t)
    (task : Task Nodes) :
    (c.reenable K href .enabled >>= fun _ => pure task).through replies tasks =
      match replies 0 with
      | .answered => (.ok task, Function.update tasks href (some (K.patch { status := some .enabled } t)))
      | .refused => (.error ClientV1.unanswered, tasks)
      | .lost => (.error ClientV1.unanswered,
          Function.update tasks href (some (K.patch { status := some .enabled } t))) := by
  unfold reenable enable updateStatus ClientV1.updateTask
  rw [if_pos rfl, if_neg hhref, hk, Tx.bind_assoc, Tx.bind_assoc, Tx.through_ofExcept_bind]
  dsimp only
  rw [Tx.bind_assoc, Tx.through_update_bind, ht]
  cases replies 0 <;> rfl

end Requests

/-! ### When the status is kept -/

/-- The update does not get to change the task. -/
def Untouched (replies : ℕ → Reply) : Prop :=
  c.kapaClient ≠ .ok () ∨ href = "" ∨ replies 0 ≠ .answered ∨ (∀ opt, c.updateOptions rule ≠ .ok opt) ∨
    replies 1 = .refused

/-- An update keeps the status of a task that is not enabled. Of one that is
enabled it does so if and only if it does not get to change the task, or the
reply to enabling it again is lost. -/
theorem update_keeps_status_iff (tasks : Tasks) (replies : ℕ → Reply) :
    KeepsStatus tasks href ((c.update K href rule).through replies tasks) ↔
      ∀ t, tasks href = some t → t.status = .enabled →
        c.Untouched href rule replies ∨ replies 1 = .answered ∧ replies 2 = .lost := by
  by_cases hearly : c.kapaClient ≠ .ok () ∨ href = "" ∨ tasks href = none ∨ replies 0 ≠ .answered ∨
      ∀ opt, c.updateOptions rule ≠ .ok opt
  · obtain ⟨e, he⟩ := through_update_early (K := K) hearly
    rw [he]
    refine iff_of_true (.inl rfl) fun t ht _ => .inl ?_
    unfold Untouched
    rcases hearly with h | h | h | h | h
    · exact .inl h
    · exact .inr (.inl h)
    · rw [h] at ht
      cases ht
    · exact .inr (.inr (.inl h))
    · exact .inr (.inr (.inr (.inl h)))
  · push Not at hearly
    obtain ⟨hk, hhref, hsome, hr, opt, ho⟩ := hearly
    obtain ⟨t, ht⟩ := Option.ne_none_iff_exists'.mp hsome
    have hdisabled : (K.patch opt t).status = .disabled := by
      rw [K.patch_status, c.updateOptions_status rule ho]
      rfl
    have hchanged : Function.update tasks href (some (K.patch opt t)) href = some (K.patch opt t) :=
      Function.update_self ..
    have huntouched : c.Untouched href rule replies ↔ replies 1 = .refused := by
      unfold Untouched
      simp [hk, hhref, hr, ho]
    rw [through_update_late hk hhref ht hr ho, huntouched]
    cases hr1 : replies 1 with
    | refused => exact iff_of_true (.inl rfl) fun _ _ _ => .inl rfl
    | lost =>
      dsimp only
      rw [keepsStatus_error ht hchanged, hdisabled]
      constructor
      · rintro h u hu henabled
        rw [ht] at hu
        rw [← Option.some.inj hu, ← h] at henabled
        cases henabled
      · intro h
        cases hstatus : t.status with
        | disabled => rfl
        | enabled => simpa using h t ht hstatus
    | answered =>
      dsimp only
      cases hstatus : t.status with
      | disabled =>
        have hkept : KeepsStatus tasks href
            (.ok (c.newTask (K.patch opt t)), Function.update tasks href (some (K.patch opt t))) := by
          rw [keepsStatus_ok ht hchanged, newTask_status, hdisabled, hstatus]
          exact ⟨rfl, rfl⟩
        refine iff_of_true hkept fun u hu henabled => ?_
        rw [← Option.some.inj (ht.symm.trans hu), hstatus] at henabled
        cases henabled
      | enabled =>
        have hagain : Function.update (Function.update tasks href (some (K.patch opt t))) href
            (some (K.patch { status := some .enabled } (K.patch opt t))) href =
              some (K.patch { status := some .enabled } (K.patch opt t)) := Function.update_self ..
        have henabled : (K.patch { status := some .enabled } (K.patch opt t)).status = .enabled :=
          K.patch_status ..
        have hrest : (∀ u, tasks href = some u → u.status = .enabled →
            Reply.answered = .refused ∨ Reply.answered = .answered ∧ replies 2 = .lost) ↔ replies 2 = .lost := by
          simp [ht, hstatus]
        rw [through_reenable hk hhref hchanged, hrest]
        cases hr2 : replies 2 with
        | answered =>
          -- What is returned is the task as it was while disabled.
          dsimp only
          rw [keepsStatus_ok ht hagain, newTask_status, hdisabled, hstatus]
          refine iff_of_false ?_ (by simp)
          rintro ⟨-, hreported⟩
          revert hreported
          decide
        | refused =>
          dsimp only
          rw [keepsStatus_error ht hchanged, hdisabled, hstatus]
          simp
        | lost =>
          dsimp only
          rw [keepsStatus_error ht hagain, henabled, hstatus]
          simp

/-! ### An update with every request answered -/

/-- A service with one way to change a task. -/
def sampleService : ClientV1.Service where
  patch opt t :=
    { t with
      type := if opt.type = .invalid then t.type else opt.type
      dbrps := if opt.dbrps = [] then t.dbrps else opt.dbrps
      tickscript := if opt.tickscript = [] then t.tickscript else opt.tickscript
      status := opt.status.getD t.status }
  patch_status _ _ := rfl

def sampleClient : Client Unit :=
  { kapaClient := .ok (), generate := fun _ => .ok [], reverse := fun _ => none, noNodes := () }

def sampleTask : ClientV1.Task :=
  { href := "/kapacitor/v1/tasks/cpu", id := "cpu", type := .stream, dbrps := [⟨"telegraf", "autogen"⟩],
    tickscript := "stream|from()".toList, status := .enabled, executing := true, error := "", created := 0,
    modified := 0, lastEnabled := 0 }

/-- The rule that the page for raw TICKscripts sends. -/
def sampleRule : TaskRule Unit :=
  { unreversed () "cpu" with
    tickscript := "stream|from()|log()".toList, type := "stream", dbrps := [⟨"telegraf", "autogen"⟩],
    status := "enabled", executing := true, error := "", created := 0, modified := 0, lastEnabled := 0 }

/-- The update of an enabled task is answered at each step, the task is enabled,
and what is returned says that it is disabled. -/
theorem enabled_task_reported_disabled :
    ¬ ∀ (Nodes : Type) (c : Client Nodes) (K : ClientV1.Service) (href : String) (rule : TaskRule Nodes)
        (tasks : Tasks) (replies : ℕ → Reply),
      KeepsStatus tasks href ((c.update K href rule).through replies tasks) := by
  intro h
  have hall := h Unit sampleClient sampleService sampleTask.href sampleRule
    (fun href => if href = sampleTask.href then some sampleTask else none) fun _ => .answered
  obtain ⟨t, t', ht, -, -, hreported⟩ := hall
  obtain rfl : sampleTask = t := Option.some.inj ht
  revert hreported
  decide

end Client
end Kapacitor
end Chronograf
