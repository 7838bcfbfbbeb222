/-
# Runs of a store of files

A store of files keeps a map of records in every run whose steps have room: each
record that is written has a file of its own in the directory, is read back from it
as it was, and comes before every file that cannot be loaded; an update that has
removed a file can write the new one; and what a failed addition leaves comes after
all records. Whatever else fails, no record is lost and no lookup misses one.

Key definitions: `Call`, `Store.Contract`, `Store.Fits`.
Key theorems: `Store.contract_step`, `Store.directory_is_map`.
-/
import Chronograf.Filestore.Records

namespace Chronograf
namespace Filestore

open Entries Paths

/-- A call of a method, with what fails in it. -/
inductive Call (ρ : Type)
  | all (faults : Store.LookupFaults)
  | get (faults : Store.LookupFaults) (id : ℤ)
  | add (genID : Except Error String) (faults : CreateFaults) (x : ρ)
  | update (faults : Store.UpdateFaults) (x : ρ)
  | delete (faults : Store.DeleteFaults) (x : ρ)

inductive Answer (ρ : Type)
  | records (xs : List ρ)
  | record (x : ρ)
  | done
  deriving DecidableEq

namespace Store

variable {ρ : Type} (d : Store ρ)

def answer (s : Disk) : Call ρ → Except Error (Answer ρ)
  | .all faults => (d.all faults s).map .records
  | .get faults id => (d.get faults id s).map .record
  | .add genID faults x => (d.add genID faults x s).1.map .record
  | .update faults x => (d.update faults x s).1.map fun _ => .done
  | .delete faults x => (d.delete faults x s).1.map fun _ => .done

def step (s : Disk) : Call ρ → Disk
  | .all _ => s
  | .get _ _ => s
  | .add genID faults x => (d.add genID faults x s).2
  | .update faults x => (d.update faults x s).2
  | .delete faults x => (d.delete faults x s).2

def run (s : Disk) (calls : List (Call ρ)) : Disk := calls.foldl d.step s

/-- What an answer says of the map before and after the call. -/
def Serves (before after : ℤ → Option ρ) : Call ρ → Except Error (Answer ρ) → Prop
  | _, .error _ => after = before
  | .all _, .ok (.records xs) => after = before ∧ ∀ x ∈ xs, before (d.id x) = some x
  | .get _ id, .ok (.record x) => after = before ∧ before id = some x
  | .add genID _ x, .ok (.record y) =>
    after = Function.update before (d.id y) (some y) ∧
      ∃ text id, genID = .ok text ∧ Server.atoi text = some id ∧ y = d.withID id x
  | .update _ x, .ok .done => after = Function.update before (d.id x) (some x)
  | .delete _ x, .ok .done => after = Function.update before (d.id x) none
  | _, .ok _ => False

/-- What a call answers when none of its file operations fails. -/
def Answers (before : ℤ → Option ρ) : Call ρ → Except Error (Answer ρ) → Prop
  | .all faults, answer => faults = {} →
    ∃ xs, answer = .ok (.records xs) ∧ ∀ x, x ∈ xs ↔ before (d.id x) = some x
  | .get faults id, answer => faults = {} → ∀ x, before id = some x → answer = .ok (.record x)
  | .add _ _ _, _ => True
  | .update faults x, answer => faults = {} → before (d.id x) ≠ none → answer = .ok .done
  | .delete faults x, answer => faults = {} → before (d.id x) ≠ none → answer = .ok .done

/-- What the store promises of a call. -/
structure Contract (s : Disk) (c : Call ρ) : Prop where
  serves : d.Serves (d.records s) (d.records (d.step s c)) c (d.answer s c)
  answers : d.Answers (d.records s) c (d.answer s c)
  inside : ∀ q, q ≠ d.dir → d.step s c q = s q

/-- A call that fails leaves the map as it was. -/
theorem Contract.records_of_error {d : Store ρ} {s : Disk} {c : Call ρ} {e : Error} (h : d.Contract s c)
    (he : d.answer s c = .error e) : d.records (d.step s c) = d.records s := by
  have hserves := h.serves
  rw [he] at hserves
  cases c <;> exact hserves

/-! ### Room for a record -/

/-- The ID that is generated is new. -/
def Fresh (s : Disk) : Call ρ → Prop
  | .add (.ok text) _ _ => ∀ id, Server.atoi text = some id → d.records s id = none
  | _ => True

/-- The name of the record's file. -/
def leaf (x : ρ) : Text := (d.file d.dir x).getLast?.getD []

/-- The file of the record is in the directory, and holds no other record. -/
structure Room (s : Disk) (x : ρ) : Prop where
  inside : d.file d.dir x = d.dir ++ [d.leaf x]
  vacant : ∀ y, (d.leaf x, .ok y) ∈ d.entries s → d.id y = d.id x

/-- The content is read as the record, and comes before what cannot be loaded. -/
structure Reads (s : Disk) (x : ρ) (content : List Byte) : Prop where
  readable : d.parse (d.leaf x) content = .ok x
  first : ∀ f e, (f, .error e) ∈ d.entries s → f ≠ d.leaf x → compare (d.leaf x) f = .lt

/-- The content cannot be loaded, and comes after what can. -/
structure Hidden (s : Disk) (x : ρ) (content : List Byte) : Prop where
  unreadable : ∃ e, d.parse (d.leaf x) content = .error e
  last : ∀ f y, (f, .ok y) ∈ d.entries s → f ≠ d.leaf x → compare f (d.leaf x) = .lt

/-- There is room for what is left of an addition whose file can be opened: of all
of the record, or of the part that was written. -/
def AddFits (s : Disk) (faults : CreateFaults) (x : ρ) : Prop :=
  (∃ s', s.create faults.create (d.file d.dir x) = .ok s') → d.Room s x ∧
    match d.written faults x with
    | (.ok _, content) => d.Reads s x content
    | (.error _, content) => d.Hidden s x content

/-- The new file can be opened and written, and there is room for it. -/
structure UpdateFits (s : Disk) (faults : CreateFaults) (x : ρ) : Prop where
  created : faults.create = none ∧ s.node (d.file d.dir x) ≠ some .directory
  written : (d.written faults x).1 = .ok ()
  room : d.Room s x
  reads : d.Reads s x (d.written faults x).2

/-- The old file of an update is found twice and removed. -/
def Removes (s : Disk) (faults : UpdateFaults) (x : ρ) : Prop :=
  (∃ found, d.idToFile faults.lookup (d.id x) s = .ok found ∧ d.idToFile faults.delete.lookup (d.id x) s = .ok found) ∧
    faults.delete.remove = none

def Fits (s : Disk) : Call ρ → Prop
  | .add (.ok text) faults x => ∀ id, Server.atoi text = some id → d.AddFits s faults (d.withID id x)
  | .update faults x => d.Removes s faults x → d.UpdateFits s faults.create x
  | _ => True

variable {d} {s : Disk} {x : ρ}

theorem ext_leaf (h : d.file d.dir x = d.dir ++ [d.leaf x]) : ext (d.leaf x) = d.ext := by
  obtain ⟨hword, hdot, hslash⟩ := d.word_plain
  have hfile : d.file d.dir x = join d.dir ((d.name x).toList ++ '.' :: d.word) := by rw [Kind.file, d.ext_eq]
  obtain ⟨p, last, hjoin⟩ := join_append hword hdot hslash d.dir (d.name x).toList
  rw [h, hjoin] at hfile
  obtain ⟨-, hleaf⟩ := List.append_inj' hfile rfl
  cases hleaf' : d.leaf x with
  | nil => simp [hleaf'] at hleaf
  | cons c cs =>
    rw [hleaf', List.cons.injEq, and_iff_left rfl] at hleaf
    rw [hleaf, d.ext_eq, ext_append hdot hslash]

/-- The file of a record whose name has no slash is in the directory. -/
theorem file_plain (h : '/' ∉ (d.name x).toList) : d.file d.dir x = d.dir ++ [(d.name x).toList ++ d.ext] := by
  obtain ⟨hword, hdot, hslash⟩ := d.word_plain
  obtain ⟨p, last, hjoin⟩ := join_append hword hdot hslash [] (d.name x).toList
  have hplain : '/' ∉ (d.name x).toList ++ d.ext := by
    rw [d.ext_eq]
    simp [h, hslash]
  rw [Kind.file]
  rw [join, names_plain hplain, List.foldl_cons, List.foldl_nil]
  rw [join, ← d.ext_eq, names_plain hplain, List.foldl_cons, List.foldl_nil] at hjoin
  unfold enter at hjoin ⊢
  split_ifs at hjoin ⊢ with hblank hdots
  · cases p <;> cases hjoin
  · cases p <;> cases hjoin
  · rfl

/-- What a creation that opens its file leaves. -/
theorem create_opened {faults : CreateFaults} {created : Disk} (hin : d.file d.dir x = d.dir ++ [d.leaf x])
    (h : s.create faults.create (d.file d.dir x) = .ok created) :
    ∃ s', d.create faults (d.file d.dir x) x s = ((d.written faults x).1, s') ∧
      Disk.Put d.dir (d.leaf x) (d.written faults x).2 s s' := by
  refine ⟨_, by rw [Kind.create, h], ?_⟩
  rw [hin] at h ⊢
  obtain ⟨hlisted, rfl⟩ := Disk.create_ok h
  rw [List.dropLast_concat] at hlisted
  have hopened : Disk.Put d.dir (d.leaf x) [] s _ := Disk.put_store hlisted
  exact hopened.trans (Disk.put_store hopened.listed)

/-! ### Each method -/

/-- An addition leaves the map as it was, or with the record in it. -/
theorem Ready.create (h : d.Ready s) {faults : CreateFaults} (hfresh : d.records s (d.id x) = none)
    (hfits : d.AddFits s faults x) :
    (∃ e s', d.create faults (d.file d.dir x) x s = (.error e, s') ∧ d.Becomes s s' (d.records s)) ∨
      ∃ s', d.create faults (d.file d.dir x) x s = (.ok (), s') ∧
        d.Becomes s s' (Function.update (d.records s) (d.id x) (some x)) := by
  rcases hopen : s.create faults.create (d.file d.dir x) with e | created
  · exact .inl ⟨e, s, by rw [Kind.create, hopen], h.unchanged⟩
  · obtain ⟨hroom, hwritten⟩ := hfits ⟨created, hopen⟩
    obtain ⟨s', hcreate, hput⟩ := create_opened hroom.inside hopen
    have hext := ext_leaf hroom.inside
    have hvacant : ∀ y, (d.leaf x, .ok y) ∉ d.entries s := by
      intro y hy
      have hrecord := h.collected.mp (mem_collect.mpr ⟨_, hy⟩)
      rw [hroom.vacant y hy, hfresh] at hrecord
      cases hrecord
    rw [hcreate]
    rcases hw : d.written faults x with ⟨e | _, content⟩
    · rw [hw] at hwritten hput
      obtain ⟨e', hread⟩ := hwritten.unreadable
      exact .inl ⟨e, s', rfl, h.hidden hput hext hread hvacant hwritten.last⟩
    · rw [hw] at hwritten hput
      exact .inr ⟨s', rfl, h.added hput hext hwritten.readable hfresh hvacant hwritten.first⟩

/-- A deletion fails and does nothing, or removes the file of the record. -/
theorem Ready.delete_cases (h : d.Ready s) (faults : DeleteFaults) (x : ρ) :
    (∃ e, d.delete faults x s = (.error e, s)) ∨
      ∃ f y s', d.delete faults x s = (.ok (), s') ∧ d.idToFile faults.lookup (d.id x) s = .ok (y, d.dir ++ [f]) ∧
        d.id y = d.id x ∧ (f, .ok y) ∈ d.entries s ∧ faults.remove = none ∧ Disk.Dropped d.dir f s s' := by
  rcases hfound : d.idToFile faults.lookup (d.id x) s with e | ⟨y, file⟩
  · exact .inl ⟨e, by rw [delete, hfound]⟩
  · obtain ⟨-, hid, f, content, rfl, hmem, hnode⟩ := h.found (idToFile_ok hfound)
    rcases hremove : s.remove faults.remove (d.dir ++ [f]) with e | s'
    · exact .inl ⟨e, by rw [delete, hfound]; simp only [hremove]⟩
    · have hnone : faults.remove = none := by
        rcases hfails : faults.remove with _ | e
        · rfl
        · rw [hfails] at hremove
          cases hremove
      exact .inr ⟨f, y, s', by rw [delete, hfound]; simp only [hremove], rfl, hid, hmem, hnone,
        Disk.dropped_of_remove hnode hremove⟩

theorem Ready.delete_ok (h : d.Ready s) {faults : DeleteFaults} {found : ρ × Path}
    (hfound : d.idToFile faults.lookup (d.id x) s = .ok found) (hremove : faults.remove = none) :
    ∃ s', d.delete faults x s = (.ok (), s') := by
  obtain ⟨-, -, f, content, hfile, -, hnode⟩ := h.found (idToFile_ok hfound)
  rw [hfile] at hnode
  obtain ⟨s', hs'⟩ := Disk.remove_file hnode
  exact ⟨s', by rw [delete, hfound]; simp only [hfile, hremove, hs']⟩

/-- An update leaves the map as it was, or with the record in it. -/
theorem Ready.update (h : d.Ready s) {faults : UpdateFaults} (hfits : d.Removes s faults x → d.UpdateFits s faults.create x) :
    (∃ e, d.update faults x s = (.error e, s) ∧ ¬ d.Removes s faults x) ∨
      ∃ s', d.update faults x s = (.ok (), s') ∧
        d.Becomes s s' (Function.update (d.records s) (d.id x) (some x)) := by
  rcases hfound : d.idToFile faults.lookup (d.id x) s with e | ⟨board, file⟩
  · refine .inl ⟨e, by rw [Store.update, hfound], ?_⟩
    rintro ⟨⟨found, hfound', -⟩, -⟩
    rw [hfound] at hfound'
    cases hfound'
  · obtain ⟨-, hid, f, content, rfl, hmem, hnode⟩ := h.found (idToFile_ok hfound)
    rcases h.delete_cases faults.delete board with ⟨e, hdelete⟩ | ⟨f', y, s₁, hdelete, hagain, -, -, hremove, hdrop⟩
    · refine .inl ⟨e, by rw [Store.update, hfound]; simp only [hdelete], ?_⟩
      rintro ⟨⟨found, -, hagain⟩, hremove⟩
      rw [← hid] at hagain
      obtain ⟨s', hs'⟩ := h.delete_ok hagain hremove
      rw [hdelete] at hs'
      cases hs'
    · -- both lookups have found the same file
      have hsame := (idToFile_ok hagain).symm.trans (hid ▸ idToFile_ok hfound)
      rw [hid] at hagain
      obtain ⟨rfl, hf⟩ : y = board ∧ d.dir ++ [f'] = d.dir ++ [f] := by simpa using hsame
      cases List.append_cancel_left hf
      have hupdate := hfits ⟨⟨_, hfound, hagain⟩, hremove⟩
      have hgone := h.removed hmem hdrop
      rw [hid] at hgone
      have herased := erased_of_dropped hdrop
      have hfile : s₁.node (d.dir ++ [d.leaf x]) ≠ some .directory := by
        have hnode' := hupdate.created.2
        rw [hupdate.room.inside] at hnode'
        rw [hdrop.node]
        split
        · simp
        · exact hnode'
      obtain ⟨created, hopen⟩ := Disk.create_file hdrop.listed hfile
      rw [← hupdate.room.inside, ← hupdate.created.1] at hopen
      obtain ⟨s', hcreate, hput⟩ := create_opened hupdate.room.inside hopen
      have hvacant : ∀ y, (d.leaf x, .ok y) ∉ d.entries s₁ := by
        intro y hy
        obtain ⟨hne, hy⟩ := (herased _ _).mp hy
        exact hne (h.orderly.distinct hy hmem ((hupdate.room.vacant y hy).trans hid.symm))
      have hfresh : d.records s₁ (d.id x) = none := by rw [hgone.records, Function.update_self]
      have hadded := hgone.ready.added hput (ext_leaf hupdate.room.inside) hupdate.reads.readable hfresh hvacant
        fun k e he => hupdate.reads.first k e ((herased _ _).mp he).2
      refine .inr ⟨s', ?_, hadded.ready, fun q hq => (hadded.inside q hq).trans (hgone.inside q hq), ?_⟩
      · rw [Store.update, hfound]
        simp only [hdelete]
        rw [hcreate, hupdate.written]
      · rw [hadded.records, hgone.records, Function.update_idem]

/-! ### Every call -/

theorem contract_all (h : d.Ready s) (faults : LookupFaults) : d.Contract s (.all faults) := by
  refine ⟨?_, ?_, fun _ _ => rfl⟩
  · show d.Serves _ _ _ ((d.all faults s).map .records)
    rcases hall : d.all faults s with e | xs
    · rfl
    · exact ⟨rfl, fun x hx => h.collected.mp ((all_ok hall).subset hx)⟩
  · rintro rfl
    exact ⟨_, congrArg (Except.map Answer.records) (all_eq h.listed), fun x => h.collected⟩

theorem contract_get (h : d.Ready s) (faults : LookupFaults) (id : ℤ) : d.Contract s (.get faults id) := by
  refine ⟨?_, ?_, fun _ _ => rfl⟩
  · show d.Serves _ _ _ ((d.get faults id s).map .record)
    rcases hfound : d.idToFile faults id s with e | ⟨x, file⟩
    · rw [get, hfound]
      rfl
    · rw [get, hfound]
      exact ⟨rfl, (h.found (idToFile_ok hfound)).1⟩
  · rintro rfl x hx
    obtain ⟨file, hfound⟩ := h.found_iff.mp hx
    show (d.get {} id s).map Answer.record = _
    rw [get, hfound]
    rfl

/-- What one call does, whatever it answers. -/
theorem contract_delete (h : d.Ready s) (faults : DeleteFaults) (x : ρ) :
    d.Contract s (.delete faults x) ∧ d.Ready (d.step s (.delete faults x)) := by
  have hanswer : d.answer s (.delete faults x) = (d.delete faults x s).1.map fun _ => .done := rfl
  have hstep : d.step s (.delete faults x) = (d.delete faults x s).2 := rfl
  have hanswers : faults = {} → d.records s (d.id x) ≠ none → d.answer s (.delete faults x) = .ok .done := by
    rintro rfl hsome
    obtain ⟨y, hy⟩ := Option.ne_none_iff_exists'.mp hsome
    obtain ⟨file, hfound⟩ := h.found_iff.mp hy
    have hlookup : d.idToFile ({} : DeleteFaults).lookup (d.id x) s = .ok (y, file) := hfound
    obtain ⟨s', hs'⟩ := h.delete_ok hlookup rfl
    rw [hanswer, hs']
    rfl
  rcases h.delete_cases faults x with ⟨e, hdelete⟩ | ⟨f, y, s', hdelete, -, hid, hmem, -, hdrop⟩
  · refine ⟨⟨?_, hanswers, ?_⟩, ?_⟩
    · rw [hanswer, hstep, hdelete]
      rfl
    · rw [hstep, hdelete]
      exact fun _ _ => rfl
    · rw [hstep, hdelete]
      exact h
  · have hremoved := h.removed hmem hdrop
    rw [hid] at hremoved
    refine ⟨⟨?_, hanswers, ?_⟩, ?_⟩
    · rw [hanswer, hstep, hdelete]
      exact hremoved.records
    · rw [hstep, hdelete]
      exact hremoved.inside
    · rw [hstep, hdelete]
      exact hremoved.ready

theorem contract_update (h : d.Ready s) {faults : UpdateFaults} (hfits : d.Fits s (.update faults x)) :
    d.Contract s (.update faults x) ∧ d.Ready (d.step s (.update faults x)) := by
  have hanswer : d.answer s (.update faults x) = (d.update faults x s).1.map fun _ => .done := rfl
  have hstep : d.step s (.update faults x) = (d.update faults x s).2 := rfl
  rcases h.update hfits with ⟨e, hupdate, hnot⟩ | ⟨s', hupdate, hbecomes⟩
  · refine ⟨⟨?_, ?_, ?_⟩, ?_⟩
    · rw [hanswer, hstep, hupdate]
      rfl
    · rintro rfl hsome
      obtain ⟨y, hy⟩ := Option.ne_none_iff_exists'.mp hsome
      obtain ⟨file, hfound⟩ := h.found_iff.mp hy
      exact absurd ⟨⟨_, hfound, hfound⟩, rfl⟩ hnot
    · rw [hstep, hupdate]
      exact fun _ _ => rfl
    · rw [hstep, hupdate]
      exact h
  · refine ⟨⟨?_, fun _ _ => ?_, ?_⟩, ?_⟩
    · rw [hanswer, hstep, hupdate]
      exact hbecomes.records
    · rw [hanswer, hupdate]
      rfl
    · rw [hstep, hupdate]
      exact hbecomes.inside
    · rw [hstep, hupdate]
      exact hbecomes.ready

theorem contract_add (h : d.Ready s) {genID : Except Error String} {faults : CreateFaults}
    (hfresh : d.Fresh s (.add genID faults x)) (hfits : d.Fits s (.add genID faults x)) :
    d.Contract s (.add genID faults x) ∧ d.Ready (d.step s (.add genID faults x)) := by
  have hanswer : d.answer s (.add genID faults x) = (d.add genID faults x s).1.map .record := rfl
  have hstep : d.step s (.add genID faults x) = (d.add genID faults x s).2 := rfl
  -- nothing is written without an ID
  have hrefused : (∃ e, d.add genID faults x s = (.error e, s)) →
      d.Contract s (.add genID faults x) ∧ d.Ready (d.step s (.add genID faults x)) := by
    rintro ⟨e, hadd⟩
    refine ⟨⟨?_, trivial, ?_⟩, ?_⟩
    · rw [hanswer, hstep, hadd]
      rfl
    · rw [hstep, hadd]
      exact fun _ _ => rfl
    · rw [hstep, hadd]
      exact h
  rcases genID with e | text
  · exact hrefused ⟨e, rfl⟩
  · rcases hid : Server.atoi text with _ | id
    · exact hrefused ⟨.errorf ("strconv.Atoi: parsing " ++ text), by rw [add]; simp only [hid]⟩
    · have hadd : d.add (.ok text) faults x s =
          ((d.create faults (d.file d.dir (d.withID id x)) (d.withID id x) s).1.map fun _ => d.withID id x,
            (d.create faults (d.file d.dir (d.withID id x)) (d.withID id x) s).2) := by
        rw [add]
        simp only [hid]
      have hnew : d.records s (d.id (d.withID id x)) = none := by
        rw [d.id_withID]
        exact hfresh id hid
      rcases h.create hnew (hfits id hid) with ⟨e, s', hcreate, hbecomes⟩ | ⟨s', hcreate, hbecomes⟩
      · refine ⟨⟨?_, trivial, ?_⟩, ?_⟩
        · rw [hanswer, hstep, hadd, hcreate]
          exact hbecomes.records
        · rw [hstep, hadd, hcreate]
          exact hbecomes.inside
        · rw [hstep, hadd, hcreate]
          exact hbecomes.ready
      · refine ⟨⟨?_, trivial, ?_⟩, ?_⟩
        · rw [hanswer, hstep, hadd, hcreate]
          exact ⟨hbecomes.records, text, id, rfl, hid, rfl⟩
        · rw [hstep, hadd, hcreate]
          exact hbecomes.inside
        · rw [hstep, hadd, hcreate]
          exact hbecomes.ready

theorem contract_step (h : d.Ready s) {c : Call ρ} (hfresh : d.Fresh s c) (hfits : d.Fits s c) :
    d.Contract s c ∧ d.Ready (d.step s c) := by
  cases c with
  | all faults => exact ⟨contract_all h faults, h⟩
  | get faults id => exact ⟨contract_get h faults id, h⟩
  | add genID faults x => exact contract_add h hfresh hfits
  | update faults x => exact contract_update h hfits
  | delete faults x => exact contract_delete h faults x

/-- The steps of a run that finds room for its records keep the directory a map. -/
theorem ready_run (h : d.Ready s) {calls : List (Call ρ)}
    (hcalls : ∀ pre c, pre ++ [c] <+: calls → d.Fresh (d.run s pre) c ∧ d.Fits (d.run s pre) c) :
    ∀ pre, pre <+: calls → d.Ready (d.run s pre) := by
  intro pre
  induction pre using List.reverseRecOn with
  | nil => exact fun _ => h
  | append_singleton pre c ih =>
    intro hpre
    obtain ⟨hfresh, hfits⟩ := hcalls pre c hpre
    rw [run, List.foldl_append]
    exact (contract_step (ih ((List.prefix_append _ _).trans hpre)) hfresh hfits).2

/-- The lookups find all that `All` lists in a directory that is ready, and in no
other; and in every run from there whose steps have room for their records, each call
keeps its contract. -/
theorem directory_is_map (d : Store ρ) (s : Disk) :
    (d.Ready s ↔ d.Finds s) ∧
    ∀ calls : List (Call ρ), d.Ready s →
      (∀ pre c, pre ++ [c] <+: calls → d.Fresh (d.run s pre) c ∧ d.Fits (d.run s pre) c) →
      (∀ pre, pre <+: calls → d.Finds (d.run s pre)) ∧
        ∀ pre c, pre ++ [c] <+: calls → d.Contract (d.run s pre) c := by
  refine ⟨ready_iff, fun calls h hcalls => ⟨fun pre hpre => ready_iff.mp (ready_run h hcalls pre hpre), ?_⟩⟩
  intro pre c hpre
  obtain ⟨hfresh, hfits⟩ := hcalls pre c hpre
  exact (contract_step (ready_run h hcalls pre ((List.prefix_append _ _).trans hpre)) hfresh hfits).1

/-! ### Runs without room -/

/-- A dashboard that nothing was added to. -/
def blankBoard (id : ℤ) (name : String) : Dashboard :=
  { id := id, cells := [], templates := [], name := name, organization := "" }

/-- The file of a dashboard without cells and templates. -/
def boardFile (board : Dashboard) : List Byte :=
  ("\x7b\n        \"id\": " ++ toString board.id ++
    ",\n        \"cells\": null,\n        \"templates\": null,\n        \"name\": \"" ++ board.name ++
    "\",\n        \"organization\": \"" ++ board.organization ++ "\"\n    \x7d").toList.map fun c => UInt8.ofNat c.toNat

/-- The boards of the runs below; no text of theirs is a template. -/
def blankBoards : Store Dashboard where
  toKind := dashboards
    { marshalIndent := fun board => .ok (boardFile board)
      execute := fun _ content => some content
      unmarshal := fun content =>
        match [blankBoard 1 "cpu", blankBoard 2 "cpu", blankBoard 3 "../mem"].find? fun board => boardFile board = content with
        | some board => .ok board
        | none => .error (.errorf "unexpected end of JSON input") }
  dir := ["boards".toList]

/-- A disk with this in the directory of boards. -/
def withBoards (files : Listing) : Disk := fun p =>
  if p = [] then some (.ofList [("boards".toList, Node.directory)])
  else if p = ["boards".toList] then some files else none

/-- A board is added under a new ID. -/
def addBoard (id : String) (name : String) : Call Dashboard := .add (.ok id) {} (blankBoard 0 name)

/-- The board 1 is updated, and its file cannot be created. -/
def unwritten : Call Dashboard :=
  .update { create := { create := some (.errorf "no space left on device") } } (blankBoard 1 "cpu")

theorem entries_empty : blankBoards.entries (withBoards ∅) = [] := rfl

theorem board_added : blankBoards.Finds (blankBoards.run (withBoards ∅) [addBoard "1" "cpu"]) ∧
    blankBoards.Contract (withBoards ∅) (addBoard "1" "cpu") := by
  have hready : blankBoards.Ready (withBoards ∅) := by
    refine ⟨rfl, ?_⟩
    rw [entries_empty]
    exact ⟨fun h => absurd h List.not_mem_nil, fun h => absurd h List.not_mem_nil⟩
  have hid : ∀ id, Server.atoi "1" = some id → id = 1 := by
    intro id h
    rw [show Server.atoi "1" = some 1 by decide +kernel] at h
    cases h
    rfl
  have hfits : blankBoards.Fits (withBoards ∅) (addBoard "1" "cpu") := by
    intro id h
    cases hid id h
    refine fun _ => ⟨⟨by decide +kernel, by rw [entries_empty]; simp⟩, ?_⟩
    show blankBoards.Reads (withBoards ∅) (blankBoard 1 "cpu") (boardFile (blankBoard 1 "cpu"))
    exact ⟨by decide +kernel, by rw [entries_empty]; simp⟩
  have hfresh : blankBoards.Fresh (withBoards ∅) (addBoard "1" "cpu") := by
    intro id h
    cases hid id h
    decide +kernel
  obtain ⟨hfinds, hcontract⟩ := (directory_is_map blankBoards (withBoards ∅)).2 [addBoard "1" "cpu"] hready
    (fun pre c hpre => by
      obtain rfl : pre = [] := List.eq_nil_of_length_eq_zero (by simpa using hpre.length_le)
      obtain rfl : c = addBoard "1" "cpu" := by simpa using hpre
      exact ⟨hfresh, hfits⟩)
  exact ⟨hfinds _ (List.prefix_refl _), hcontract [] _ (List.prefix_refl _)⟩

/-- Two boards with one name have one file, and a name can lead out of the
directory; a file that cannot be loaded hides the one after it; and an update that
cannot create its file has removed the board. -/
theorem boards_lost :
    ¬ blankBoards.Contract (blankBoards.run (withBoards ∅) [addBoard "1" "cpu"]) (addBoard "2" "cpu") ∧
      ¬ blankBoards.Contract (withBoards ∅) (addBoard "3" "../mem") ∧
      ¬ blankBoards.Finds (withBoards (.ofList [("a.dashboard".toList, Node.file []),
        ("b.dashboard".toList, Node.file (boardFile (blankBoard 1 "cpu")))])) ∧
      ¬ blankBoards.Contract (blankBoards.run (withBoards ∅) [addBoard "1" "cpu"]) unwritten := by
  refine ⟨fun h => ?_, fun h => ?_, fun h => ?_, fun h => ?_⟩
  · have hanswer : blankBoards.answer (blankBoards.run (withBoards ∅) [addBoard "1" "cpu"]) (addBoard "2" "cpu") =
        .ok (.record (blankBoard 2 "cpu")) := by decide +kernel
    have hserves := h.serves
    rw [hanswer] at hserves
    have hrecords := congrFun hserves.1 1
    revert hrecords
    decide +kernel
  · have hkeys := congrArg (Option.map fun listing : Listing => listing.keys) (h.inside [] (List.cons_ne_nil _ _).symm)
    revert hkeys
    decide +kernel
  · have hfound := h.2 "b.dashboard".toList (blankBoard 1 "cpu") (by decide +kernel)
    revert hfound
    decide +kernel
  · have hanswer : blankBoards.answer (blankBoards.run (withBoards ∅) [addBoard "1" "cpu"]) unwritten =
        .error (.errorf "no space left on device") := by decide +kernel
    have hrecords := congrFun (h.records_of_error hanswer) 1
    revert hrecords
    decide +kernel

end Store

end Filestore
end Chronograf
