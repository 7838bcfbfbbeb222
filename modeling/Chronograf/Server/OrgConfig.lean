/-
# What the server accepts as a log viewer configuration

`validLogViewerConfig` of `server/org_config.go`, with what it counts of the
encodings of a column. The formats of the severity are counted by the
values alone, whatever their type.

Key definitions: `validLogViewerConfig`, `ValidColumn`.
Key theorems: `validColumn_iff`, `validLogViewerConfig_iff`.
-/
import Chronograf.Logs.Config

namespace Chronograf
namespace LogViewer

structure Counts where
  icon : ℕ
  text : ℕ
  visibility : ℕ

/-- One encoding of a column. -/
def validEncoding (name : String) (counts : Counts) (e : ColumnEncoding) : Except String Counts :=
  if e.type = "visibility" ∧ ¬(e.value = "visible" ∨ e.value = "hidden") then
    .error ("Invalid log viewer config: invalid visibility in column " ++ name)
  else
    .ok ⟨counts.icon + if name = "severity" ∧ e.value = "icon" then 1 else 0, counts.text + if name = "severity" ∧ e.value = "text" then 1 else 0,
      counts.visibility + if e.type = "visibility" then 1 else 0⟩

def validColumn (clm : LogViewerColumn) : Except String Unit := do
  let counts ← clm.encodings.foldlM (validEncoding clm.name) ⟨0, 0, 0⟩
  if counts.visibility ≠ 1 then .error ("Invalid log viewer config: missing visibility encoding in column " ++ clm.name)
  else if clm.name = "severity" ∧ (counts.icon + counts.text = 0 ∨ counts.icon > 1 ∨ counts.text > 1) then
    .error ("Invalid log viewer config: invalid number of severity format encodings in column " ++ clm.name)
  else .ok ()

/-- With the names and positions of the columns before. -/
def validColumns (nameMatcher : List String) (positionMatcher : List ℤ) : List LogViewerColumn → Except String Unit
  | [] => .ok ()
  | clm :: columns =>
    if clm.name ∈ nameMatcher then .error ("Invalid log viewer config: Duplicate column name " ++ clm.name)
    else if clm.position ∈ positionMatcher then .error "Invalid log viewer config: Multiple columns with same position value"
    else do
      validColumn clm
      validColumns (clm.name :: nameMatcher) (clm.position :: positionMatcher) columns

def validLogViewerConfig (c : LogViewerConfig) : Except String Unit :=
  if c.columns = [] then .error "Invalid log viewer config: must have at least 1 column" else validColumns [] [] c.columns

/-! ### What is accepted -/

def hasValue (value : String) (e : ColumnEncoding) : Bool := e.value = value

def isVisibility (e : ColumnEncoding) : Bool := e.type = "visibility"

/-- One visibility, and of the severity an icon, a text, or both. -/
structure ValidColumn (clm : LogViewerColumn) : Prop where
  visibility : ∀ e ∈ clm.encodings, e.type = "visibility" → e.value = "visible" ∨ e.value = "hidden"
  one : clm.encodings.countP isVisibility = 1
  some_format : clm.name = "severity" → clm.encodings.countP (hasValue "icon") + clm.encodings.countP (hasValue "text") ≠ 0
  icon : clm.name = "severity" → clm.encodings.countP (hasValue "icon") ≤ 1
  text : clm.name = "severity" → clm.encodings.countP (hasValue "text") ≤ 1

theorem foldlM_validEncoding (name : String) : ∀ (es : List ColumnEncoding) (counts counts' : Counts),
    es.foldlM (validEncoding name) counts = .ok counts' ↔ (∀ e ∈ es, e.type = "visibility" → e.value = "visible" ∨ e.value = "hidden") ∧
      counts' = ⟨counts.icon + if name = "severity" then es.countP (hasValue "icon") else 0,
        counts.text + if name = "severity" then es.countP (hasValue "text") else 0, counts.visibility + es.countP isVisibility⟩
  | [], counts, counts' => by
    rw [List.foldlM_nil]
    have hcounts : Counts.mk (counts.icon + if name = "severity" then 0 else 0) (counts.text + if name = "severity" then 0 else 0)
        (counts.visibility + 0) = counts := by
      rw [ite_self]
      rfl
    refine ⟨fun h => ⟨fun e he => absurd he List.not_mem_nil, ?_⟩, fun h => ?_⟩
    · exact (Except.ok.inj h).symm.trans hcounts.symm
    · exact congrArg Except.ok (hcounts.symm.trans h.2.symm)
  | e :: es, counts, counts' => by
    rw [List.foldlM_cons, validEncoding, List.forall_mem_cons]
    by_cases hvisibility : e.type = "visibility" ∧ ¬(e.value = "visible" ∨ e.value = "hidden")
    · rw [if_pos hvisibility]
      exact iff_of_false nofun fun h => hvisibility.2 (h.1.1 hvisibility.1)
    · have hone : e.type = "visibility" → e.value = "visible" ∨ e.value = "hidden" := fun h => by
        by_contra hvalue
        exact hvisibility ⟨h, hvalue⟩
      have hrest := foldlM_validEncoding name es
        ⟨counts.icon + if name = "severity" ∧ e.value = "icon" then 1 else 0, counts.text + if name = "severity" ∧ e.value = "text" then 1 else 0,
          counts.visibility + if e.type = "visibility" then 1 else 0⟩ counts'
      rw [if_neg hvisibility]
      refine hrest.trans ?_
      rw [and_iff_right hone]
      refine and_congr_right fun _ => Eq.congr rfl ?_
      simp only [List.countP_cons, hasValue, isVisibility, decide_eq_true_eq]
      by_cases hname : name = "severity"
      · simp only [hname, true_and, if_true]
        congr 1 <;> omega
      · simp only [hname, false_and, if_false, Nat.add_zero]
        congr 1
        omega

theorem validColumn_iff (clm : LogViewerColumn) : validColumn clm = .ok () ↔ ValidColumn clm := by
  rw [validColumn, Except.bind_ok_iff]
  by_cases hname : clm.name = "severity"
  · constructor
    · rintro ⟨counts, hcounts, h⟩
      obtain ⟨hvisibility, rfl⟩ := (foldlM_validEncoding _ _ _ _).mp hcounts
      simp only [Nat.zero_add, hname, if_true, true_and] at h
      split_ifs at h with hone hformat
      · simp only [not_or, not_lt] at hformat
        exact ⟨hvisibility, not_not.mp hone, fun _ => hformat.1, fun _ => hformat.2.1, fun _ => hformat.2.2⟩
    · intro h
      refine ⟨_, (foldlM_validEncoding _ _ _ _).mpr ⟨h.visibility, rfl⟩, ?_⟩
      simp only [Nat.zero_add, hname, if_true, true_and]
      rw [if_neg (not_not_intro h.one), if_neg]
      rintro (hnone | hicon | htext)
      · exact h.some_format hname hnone
      · exact absurd (h.icon hname) (Nat.not_le_of_lt hicon)
      · exact absurd (h.text hname) (Nat.not_le_of_lt htext)
  · constructor
    · rintro ⟨counts, hcounts, h⟩
      obtain ⟨hvisibility, rfl⟩ := (foldlM_validEncoding _ _ _ _).mp hcounts
      simp only [Nat.zero_add, hname, false_and, if_false] at h
      split_ifs at h with hone
      exact ⟨hvisibility, not_not.mp hone, fun h => absurd h hname, fun h => absurd h hname, fun h => absurd h hname⟩
    · intro h
      refine ⟨_, (foldlM_validEncoding _ _ _ _).mpr ⟨h.visibility, rfl⟩, ?_⟩
      simp only [Nat.zero_add, hname, false_and, if_false]
      exact if_neg (not_not_intro h.one)

theorem validColumns_iff : ∀ (columns : List LogViewerColumn) (names : List String) (positions : List ℤ),
    validColumns names positions columns = .ok () ↔ (columns.map LogViewerColumn.name).Nodup ∧ (columns.map LogViewerColumn.position).Nodup ∧
      ∀ clm ∈ columns, clm.name ∉ names ∧ clm.position ∉ positions ∧ ValidColumn clm
  | [], _, _ => iff_of_true rfl ⟨List.nodup_nil, List.nodup_nil, fun _ h => absurd h List.not_mem_nil⟩
  | clm :: columns, names, positions => by
    rw [validColumns, List.map_cons, List.map_cons, List.nodup_cons, List.nodup_cons, List.forall_mem_cons]
    split_ifs with hname hposition
    · exact iff_of_false nofun fun h => h.2.2.1.1 hname
    · exact iff_of_false nofun fun h => h.2.2.1.2.1 hposition
    · rw [Except.bind_ok_iff]
      constructor
      · rintro ⟨⟨⟩, hclm, hrest⟩
        obtain ⟨hnames, hpositions, hall⟩ := (validColumns_iff columns _ _).mp hrest
        refine ⟨⟨fun hmem => ?_, hnames⟩, ⟨fun hmem => ?_, hpositions⟩, ⟨hname, hposition, (validColumn_iff clm).mp hclm⟩, fun c hc => ?_⟩
        · obtain ⟨c, hc, heq⟩ := List.mem_map.mp hmem
          exact (hall c hc).1 (heq ▸ List.mem_cons_self)
        · obtain ⟨c, hc, heq⟩ := List.mem_map.mp hmem
          exact (hall c hc).2.1 (heq ▸ List.mem_cons_self)
        · exact ⟨List.not_mem_of_not_mem_cons (hall c hc).1, List.not_mem_of_not_mem_cons (hall c hc).2.1, (hall c hc).2.2⟩
      · rintro ⟨⟨hnew, hnames⟩, ⟨hnew', hpositions⟩, ⟨-, -, hclm⟩, hall⟩
        refine ⟨(), (validColumn_iff clm).mpr hclm, (validColumns_iff columns _ _).mpr ⟨hnames, hpositions, fun c hc => ?_⟩⟩
        obtain ⟨hc₁, hc₂, hc₃⟩ := hall c hc
        refine ⟨?_, ?_, hc₃⟩
        · rw [List.mem_cons, not_or]
          exact ⟨fun heq => hnew (List.mem_map.mpr ⟨c, hc, heq⟩), hc₁⟩
        · rw [List.mem_cons, not_or]
          exact ⟨fun heq => hnew' (List.mem_map.mpr ⟨c, hc, heq⟩), hc₂⟩

theorem validLogViewerConfig_iff (c : LogViewerConfig) : validLogViewerConfig c = .ok () ↔
    c.columns ≠ [] ∧ (c.columns.map LogViewerColumn.name).Nodup ∧ (c.columns.map LogViewerColumn.position).Nodup ∧
      ∀ clm ∈ c.columns, ValidColumn clm := by
  rw [validLogViewerConfig]
  split_ifs with hempty
  · exact iff_of_false nofun fun h => h.1 hempty
  · rw [validColumns_iff, and_iff_right hempty]
    refine and_congr_right fun _ => and_congr_right fun _ => forall₂_congr fun clm _ => ?_
    rw [and_iff_right List.not_mem_nil, and_iff_right List.not_mem_nil]

end LogViewer
end Chronograf
