/-
# What a directory of files holds

The entries of a directory are what its files with the extension of the store are
read as. The lookup by ID is a search of them, and `All` collects them; what fails
on the way can only end the lookup, or leave records out.

Key definitions: `Disk.Put`, `Disk.Dropped`, `Store.entries`.
Key theorems: `Store.mem_entries`, `Store.idToFile_ok`, `Store.idToFile_iff`,
`Store.all_eq`.
-/
import Chronograf.Lib.Entries
import Chronograf.Filestore.Stores

namespace Chronograf
namespace Filestore

open Entries Paths

/-! ### Files in one directory -/

namespace Disk

variable {s s' : Disk} {dir : Path} {f : Text} {content : List Byte}

theorem node_concat (s : Disk) (dir : Path) (f : Text) : s.node (dir ++ [f]) = (s dir).bind fun listing => listing[f]? := by
  unfold node
  rw [List.dropLast_concat, List.getLast?_concat]
  rfl

/-- `s'` is `s` with this file in the directory. -/
structure Put (dir : Path) (f : Text) (content : List Byte) (s s' : Disk) : Prop where
  node : ∀ k, s'.node (dir ++ [k]) = if k = f then some (.file content) else s.node (dir ++ [k])
  listed : (s' dir).isSome
  inside : ∀ q, q ≠ dir → s' q = s q

/-- `s'` is `s` without this file. -/
structure Dropped (dir : Path) (f : Text) (s s' : Disk) : Prop where
  node : ∀ k, s'.node (dir ++ [k]) = if k = f then none else s.node (dir ++ [k])
  listed : (s' dir).isSome
  inside : ∀ q, q ≠ dir → s' q = s q

theorem put_store (h : (s dir).isSome) : Put dir f content s (s.store (dir ++ [f]) content) := by
  obtain ⟨listing, hlisting⟩ := Option.isSome_iff_exists.mp h
  have hstore : s.store (dir ++ [f]) content = s.set dir (some (listing.insert f (.file content))) := by
    unfold store
    rw [List.dropLast_concat, List.getLast?_concat, hlisting]
  have hself : s.set dir (some (listing.insert f (.file content))) dir = some (listing.insert f (.file content)) :=
    Function.update_self ..
  rw [hstore]
  refine ⟨fun k => ?_, by rw [hself]; rfl, fun q hq => Function.update_of_ne hq ..⟩
  rw [node_concat, node_concat, hself, hlisting, Option.bind_some, Option.bind_some, Std.TreeMap.getElem?_insert]
  exact if_congr (by rw [Std.LawfulEqCmp.compare_eq_iff_eq, eq_comm]) rfl rfl

theorem Put.trans {s'' : Disk} {content' : List Byte} (h : Put dir f content s s') (h' : Put dir f content' s' s'') :
    Put dir f content' s s'' := by
  refine ⟨fun k => ?_, h'.listed, fun q hq => (h'.inside q hq).trans (h.inside q hq)⟩
  rw [h'.node, h.node]
  split <;> rfl

theorem dropped_of_remove {fails : Option Error} (hfile : s.node (dir ++ [f]) = some (.file content))
    (h : s.remove fails (dir ++ [f]) = .ok s') : Dropped dir f s s' := by
  have hnode := hfile
  rw [node_concat] at hnode
  obtain ⟨listing, hlisting, -⟩ := Option.bind_eq_some_iff.mp hnode
  unfold remove at h
  rw [List.dropLast_concat, List.getLast?_concat, hlisting, hfile] at h
  cases fails with
  | some e => cases h
  | none =>
    cases h
    have hself : s.set dir (some (listing.erase f)) dir = some (listing.erase f) := Function.update_self ..
    refine ⟨fun k => ?_, by rw [hself]; rfl, fun q hq => Function.update_of_ne hq ..⟩
    rw [node_concat, node_concat, hself, hlisting, Option.bind_some, Option.bind_some, Std.TreeMap.getElem?_erase]
    exact if_congr (by rw [Std.LawfulEqCmp.compare_eq_iff_eq, eq_comm]) rfl rfl

theorem remove_file (hfile : s.node (dir ++ [f]) = some (.file content)) : ∃ s', s.remove none (dir ++ [f]) = .ok s' := by
  have hnode := hfile
  rw [node_concat] at hnode
  obtain ⟨listing, hlisting, -⟩ := Option.bind_eq_some_iff.mp hnode
  unfold remove
  rw [List.dropLast_concat, List.getLast?_concat, hlisting, hfile]
  exact ⟨_, rfl⟩

theorem create_file (h : (s dir).isSome) (hnode : s.node (dir ++ [f]) ≠ some .directory) :
    ∃ s', s.create none (dir ++ [f]) = .ok s' := by
  obtain ⟨listing, hlisting⟩ := Option.isSome_iff_exists.mp h
  unfold create
  rw [List.dropLast_concat, hlisting]
  rcases hentry : s.node (dir ++ [f]) with _ | content | _
  · exact ⟨_, if_neg (by simp)⟩
  · exact ⟨_, if_neg (by simp)⟩
  · exact absurd hentry hnode

theorem create_ok {fails : Option Error} {p : Path} (h : s.create fails p = .ok s') :
    (s p.dropLast).isSome ∧ s' = s.store p [] := by
  unfold create at h
  split at h
  · cases h
  · cases h
  · cases h
  · rename_i listing hlisting _
    split at h
    · cases h
    · cases h
      exact ⟨by rw [hlisting]; rfl, rfl⟩

end Disk

/-! ### Entries -/

/-- The record of an entry of a directory. -/
def Kind.read {ρ : Type} (K : Kind ρ) (name : Text) : Node → Except Error ρ
  | .directory => .error (unreadable name)
  | .file content => K.parse name content

namespace Store

variable {ρ : Type} (d : Store ρ)

/-- What the files with the extension are read as. -/
def entries (s : Disk) : List (Text × Except Error ρ) :=
  match s d.dir with
  | none => []
  | some listing => (listing.keys.filter fun f => ext f = d.ext).map fun f => (f, d.load none d.dir f s)

variable {d} {s s' : Disk} {f : Text} {x : ρ} {file : Path} {id : ℤ}

theorem load_node {node : Node} (h : s.node (d.dir ++ [f]) = some node) : d.load none d.dir f s = d.read f node := by
  unfold Kind.load Disk.readFile
  rw [h]
  cases node <;> rfl

theorem load_ok {fails : Option Error} (h : d.load fails d.dir f s = .ok x) : d.load none d.dir f s = .ok x := by
  cases fails with
  | none => exact h
  | some e => cases h

theorem mem_entries {r : Except Error ρ} : (f, r) ∈ d.entries s ↔
    ext f = d.ext ∧ ∃ node, s.node (d.dir ++ [f]) = some node ∧ r = d.read f node := by
  unfold entries
  rcases hlisting : s d.dir with _ | listing
  · simp [Disk.node_concat, hlisting]
  · have hnode : ∀ k, s.node (d.dir ++ [k]) = listing[k]? := fun k => by
      rw [Disk.node_concat, hlisting, Option.bind_some]
    simp only [List.mem_map, List.mem_filter, Std.TreeMap.mem_keys, decide_eq_true_eq, Prod.mk.injEq]
    constructor
    · rintro ⟨k, ⟨hk, hext⟩, rfl, rfl⟩
      have hsome : s.node (d.dir ++ [k]) = some listing[k] := by rw [hnode, Std.TreeMap.getElem?_eq_some_getElem hk]
      exact ⟨hext, _, hsome, load_node hsome⟩
    · rintro ⟨hext, node, hsome, rfl⟩
      have hk : f ∈ listing := by
        rw [Std.TreeMap.mem_iff_isSome_getElem?, ← hnode, hsome]
        rfl
      exact ⟨f, ⟨hk, hext⟩, rfl, load_node hsome⟩

theorem sorted_entries : Sorted (d.entries s) := by
  unfold entries Sorted
  rcases s d.dir with _ | listing
  · exact .nil
  · have hkeys : listing.keys.Pairwise fun a b => compare a b = .lt := Std.TreeMap.ordered_keys
    rw [List.pairwise_map]
    exact hkeys.filter _

/-! ### Lookups -/

/-- A lookup that answers would have answered so without failures. -/
theorem firstWith_ok {faults : LookupFaults} {n m : ℕ} : ∀ {files : List Text},
    d.firstWith faults id s n files = .ok (x, file) → d.firstWith {} id s m files = .ok (x, file)
  | [], h => by cases h
  | f :: files, h => by
    unfold firstWith at h ⊢
    split at h
    · rename_i hext
      rw [if_pos hext]
      exact firstWith_ok h
    · rename_i hext
      rw [if_neg hext]
      split at h
      · cases h
      · rename_i y hload
        rw [load_ok hload]
        simp only
        split at h
        · rename_i hid
          rw [if_pos hid]
          exact h
        · rename_i hid
          rw [if_neg hid]
          exact firstWith_ok h

theorem firstWith_iff {n : ℕ} : ∀ {files : List Text}, d.firstWith {} id s n files = .ok (x, file) ↔
    ∃ f, file = d.dir ++ [f] ∧ search (fun x => d.id x = id)
      ((files.filter fun f => ext f = d.ext).map fun f => (f, d.load none d.dir f s)) = .ok (some (x, f))
  | [] => by simp [firstWith, search]
  | f :: files => by
    unfold firstWith
    by_cases hext : ext f = d.ext
    · rw [if_neg (not_not.mpr hext), List.filter_cons_of_pos (by simpa using hext), List.map_cons]
      rcases hload : d.load none d.dir f s with e | y
      · simp [search]
      · simp only [search, decide_eq_true_eq]
        by_cases hid : d.id y = id
        · rw [if_pos hid]
          simp only [if_pos hid, Except.ok.injEq, Prod.mk.injEq, Option.some.injEq]
          constructor
          · rintro ⟨rfl, rfl⟩
            exact ⟨f, rfl, rfl, rfl⟩
          · rintro ⟨f, rfl, rfl, rfl⟩
            exact ⟨rfl, rfl⟩
        · rw [if_neg hid]
          simp only [if_neg hid]
          exact firstWith_iff
    · rw [if_pos hext, List.filter_cons_of_neg (by simpa using hext)]
      exact firstWith_iff

theorem idToFile_ok {faults : LookupFaults} (h : d.idToFile faults id s = .ok (x, file)) :
    d.idToFile {} id s = .ok (x, file) := by
  unfold idToFile Disk.readDir at h ⊢
  rcases hfails : faults.readDir with _ | e
  · rw [hfails] at h
    rcases hlisting : s d.dir with _ | listing
    · rw [hlisting] at h
      cases h
    · rw [hlisting] at h
      exact firstWith_ok h
  · rw [hfails] at h
    cases h

theorem idToFile_iff : d.idToFile {} id s = .ok (x, file) ↔
    ∃ f, file = d.dir ++ [f] ∧ search (fun x => d.id x = id) (d.entries s) = .ok (some (x, f)) := by
  unfold idToFile Disk.readDir entries
  rcases s d.dir with _ | listing
  · simp [search]
  · exact firstWith_iff

/-! ### `All` -/

theorem loadAll_sublist {faults : LookupFaults} : ∀ {files : List Text} {n : ℕ}, (d.loadAll faults s n files).Sublist
    (collect ((files.filter fun f => ext f = d.ext).map fun f => (f, d.load none d.dir f s)))
  | [], _ => .slnil
  | f :: files, n => by
    unfold loadAll
    by_cases hext : ext f = d.ext
    · rw [if_neg (not_not.mpr hext), List.filter_cons_of_pos (by simpa using hext), List.map_cons]
      rcases hload : d.load (faults.load n) d.dir f s with e | y
      · exact loadAll_sublist.trans ((List.sublist_cons_self ..).filterMap _)
      · rw [load_ok hload]
        exact loadAll_sublist.cons_cons y
    · rw [if_pos hext, List.filter_cons_of_neg (by simpa using hext)]
      exact loadAll_sublist

theorem loadAll_eq : ∀ {files : List Text} {n : ℕ}, d.loadAll {} s n files =
    collect ((files.filter fun f => ext f = d.ext).map fun f => (f, d.load none d.dir f s))
  | [], _ => rfl
  | f :: files, n => by
    unfold loadAll
    by_cases hext : ext f = d.ext
    · rw [if_neg (not_not.mpr hext), List.filter_cons_of_pos (by simpa using hext), List.map_cons]
      rcases hload : d.load none d.dir f s with e | y
      · exact loadAll_eq
      · exact congrArg (y :: ·) loadAll_eq
    · rw [if_pos hext, List.filter_cons_of_neg (by simpa using hext)]
      exact loadAll_eq

theorem all_ok {faults : LookupFaults} {xs : List ρ} (h : d.all faults s = .ok xs) : xs.Sublist (collect (d.entries s)) := by
  unfold all Disk.readDir at h
  rcases hfails : faults.readDir with _ | e
  · rw [hfails] at h
    rcases hlisting : s d.dir with _ | listing
    · rw [hlisting] at h
      cases h
    · rw [hlisting] at h
      cases h
      unfold entries
      rw [hlisting]
      exact loadAll_sublist
  · rw [hfails] at h
    cases h

theorem all_eq (h : (s d.dir).isSome) : d.all {} s = .ok (collect (d.entries s)) := by
  obtain ⟨listing, hlisting⟩ := Option.isSome_iff_exists.mp h
  unfold all Disk.readDir entries
  rw [hlisting]
  exact congrArg Except.ok loadAll_eq

end Store

end Filestore
end Chronograf
