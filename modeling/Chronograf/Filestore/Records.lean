/-
# A directory as a map of records

The map from IDs to records that `Get` makes of a directory. The lookups find all
that `All` lists if and only if each file that can be loaded comes before those that
cannot and has an ID of its own. A file that is written or removed then changes the
map at one ID, if there is room for it.

Key definitions: `Store.records`, `Store.Ready`, `Store.Becomes`.
Key theorems: `Store.ready_iff`, `Store.Ready.added`, `Store.Ready.hidden`,
`Store.Ready.removed`.
-/
import Chronograf.Filestore.Entries

namespace Chronograf
namespace Filestore

open Entries Paths

namespace Store

variable {ρ : Type} (d : Store ρ)

/-! ### The map of a directory -/

/-- What `Get` gives when nothing fails. -/
def records (s : Disk) (id : ℤ) : Option ρ := (d.get {} id s).toOption

/-- Each file that can be loaded comes before those that cannot, and has an ID of
its own. -/
structure Ready (s : Disk) : Prop where
  listed : (s d.dir).isSome
  orderly : Orderly d.id (d.entries s)

/-- The lookup finds each file that can be loaded. -/
def Finds (s : Disk) : Prop :=
  (s d.dir).isSome ∧ ∀ f x, (f, .ok x) ∈ d.entries s → d.idToFile {} (d.id x) s = .ok (x, d.dir ++ [f])

/-- `s'` comes from `s` by what happens in the directory, and is this map. -/
structure Becomes (s s' : Disk) (map : ℤ → Option ρ) : Prop where
  ready : d.Ready s'
  inside : ∀ q, q ≠ d.dir → s' q = s q
  records : d.records s' = map

variable {d} {s s' s'' : Disk} {f : Text} {x : ρ} {content : List Byte}

theorem records_eq : d.records s = Entries.records d.id (d.entries s) := by
  funext id
  refine Option.ext fun x => ?_
  rw [Entries.records_eq_iff]
  unfold records get
  rcases hfound : d.idToFile {} id s with e | ⟨y, file⟩
  · simp only [Except.toOption, reduceCtorEq, false_iff, not_exists]
    intro f hf
    rw [idToFile_iff.mpr ⟨f, rfl, hf⟩] at hfound
    cases hfound
  · obtain ⟨f, rfl, hf⟩ := idToFile_iff.mp hfound
    simp only [Except.toOption, Option.some.injEq]
    constructor
    · rintro rfl
      exact ⟨f, hf⟩
    · rintro ⟨f', hf'⟩
      rw [hf] at hf'
      cases hf'
      rfl

theorem ready_iff : d.Ready s ↔ d.Finds s := by
  have hfile : ∀ f x, d.idToFile {} (d.id x) s = .ok (x, d.dir ++ [f]) ↔
      search (fun y => d.id y = d.id x) (d.entries s) = .ok (some (x, f)) := by
    intro f x
    rw [idToFile_iff]
    constructor
    · rintro ⟨f', hf', hsearch⟩
      cases List.append_cancel_left hf'
      exact hsearch
    · exact fun hsearch => ⟨f, rfl, hsearch⟩
  unfold Finds
  rw [forall₂_congr fun f x => imp_congr_right fun _ => hfile f x, ← orderly_iff sorted_entries]
  exact ⟨fun h => ⟨h.listed, h.orderly⟩, fun h => ⟨h.1, h.2⟩⟩

theorem Ready.collected (h : d.Ready s) : x ∈ collect (d.entries s) ↔ d.records s (d.id x) = some x := by
  rw [h.orderly.mem_collect_iff sorted_entries, records_eq]

theorem Ready.id_of_records (h : d.Ready s) {id : ℤ} (hx : d.records s id = some x) : d.id x = id := by
  rw [records_eq, h.orderly.records_iff sorted_entries] at hx
  exact hx.2

/-- What the lookup finds is the record under the ID, and in a file. -/
theorem Ready.found (h : d.Ready s) {id : ℤ} {file : Path} (hfound : d.idToFile {} id s = .ok (x, file)) :
    d.records s id = some x ∧ d.id x = id ∧ ∃ f content, file = d.dir ++ [f] ∧ (f, .ok x) ∈ d.entries s ∧
      s.node file = some (.file content) := by
  obtain ⟨f, rfl, hsearch⟩ := idToFile_iff.mp hfound
  obtain ⟨hmem, hid⟩ := (h.orderly.search_iff sorted_entries).mp hsearch
  refine ⟨?_, hid, f, ?_⟩
  · rw [records_eq, h.orderly.records_iff sorted_entries]
    exact ⟨⟨f, hmem⟩, hid⟩
  · obtain ⟨-, node, hnode, hread⟩ := mem_entries.mp hmem
    cases node with
    | directory => cases hread
    | file content => exact ⟨content, rfl, hmem, hnode⟩

theorem Ready.found_iff (h : d.Ready s) {id : ℤ} :
    d.records s id = some x ↔ ∃ file, d.idToFile {} id s = .ok (x, file) := by
  constructor
  · intro hx
    rw [records_eq, Entries.records_eq_iff] at hx
    obtain ⟨f, hsearch⟩ := hx
    exact ⟨_, idToFile_iff.mpr ⟨f, rfl, hsearch⟩⟩
  · rintro ⟨file, hfound⟩
    exact (h.found hfound).1

/-! ### What happens to the map -/

theorem Ready.unchanged (h : d.Ready s) : d.Becomes s s (d.records s) := ⟨h, fun _ _ => rfl, rfl⟩

theorem inserted_of_put (hput : Disk.Put d.dir f content s s') (hext : ext f = d.ext) :
    Inserted f (d.parse f content) (d.entries s) (d.entries s') := by
  intro k r
  rw [mem_entries, mem_entries, hput.node]
  by_cases hk : k = f
  · subst hk
    simp [hext, Kind.read]
  · simp [hk]

theorem erased_of_dropped (hdrop : Disk.Dropped d.dir f s s') : Erased f (d.entries s) (d.entries s') := by
  intro k r
  rw [mem_entries, mem_entries, hdrop.node]
  by_cases hk : k = f <;> simp [hk]

theorem Ready.removed (h : d.Ready s) (hx : (f, .ok x) ∈ d.entries s) (hdrop : Disk.Dropped d.dir f s s') :
    d.Becomes s s' (Function.update (d.records s) (d.id x) none) := by
  have herased := erased_of_dropped hdrop
  refine ⟨⟨hdrop.listed, h.orderly.erase herased⟩, hdrop.inside, ?_⟩
  rw [records_eq, records_eq, h.orderly.records_erase sorted_entries sorted_entries herased hx]

/-- A record in a file that held none, with an ID of its own. -/
theorem Ready.added (h : d.Ready s) (hput : Disk.Put d.dir f content s s') (hext : ext f = d.ext)
    (hread : d.parse f content = .ok x) (hfresh : d.records s (d.id x) = none)
    (hvacant : ∀ y, (f, .ok y) ∉ d.entries s)
    (hfirst : ∀ k e, (k, .error e) ∈ d.entries s → k ≠ f → compare f k = .lt) :
    d.Becomes s s' (Function.update (d.records s) (d.id x) (some x)) := by
  have hinserted := inserted_of_put hput hext
  rw [hread] at hinserted
  have hfresh' : ∀ k y, (k, .ok y) ∈ d.entries s → d.id y ≠ d.id x := by
    intro k y hy hid
    have hrecord := h.collected.mp (mem_collect.mpr ⟨k, hy⟩)
    rw [hid, hfresh] at hrecord
    cases hrecord
  have horderly := h.orderly.insert_record hinserted hfresh' hfirst
  refine ⟨⟨hput.listed, horderly⟩, hput.inside, ?_⟩
  rw [records_eq, records_eq, h.orderly.records_insert sorted_entries hinserted horderly sorted_entries hvacant]

/-- A file that cannot be loaded, after all that can be. -/
theorem Ready.hidden (h : d.Ready s) (hput : Disk.Put d.dir f content s s') (hext : ext f = d.ext) {e : Error}
    (hread : d.parse f content = .error e) (hvacant : ∀ y, (f, .ok y) ∉ d.entries s)
    (hlast : ∀ k y, (k, .ok y) ∈ d.entries s → k ≠ f → compare k f = .lt) : d.Becomes s s' (d.records s) := by
  have hinserted := inserted_of_put hput hext
  rw [hread] at hinserted
  have horderly := h.orderly.insert_error hinserted hlast
  refine ⟨⟨hput.listed, horderly⟩, hput.inside, ?_⟩
  rw [records_eq, records_eq, h.orderly.records_insert_error sorted_entries hinserted horderly sorted_entries hvacant]

end Store

end Filestore
end Chronograf
