/-
# The text of a filter

How a filter function is read, in the part of the vendored grammar
`query/parser/ifql.peg` that the filter builder writes: AND and OR have one
precedence and are taken from the left, in whatever case; a string has no
escape but `\"`; a key after a dot is an identifier. Which characters beyond
ASCII are letters is a parameter. What the builder writes is read as what the
clause says if the keys are identifiers and the values plain.

Key definitions: `readFilter`, `isIdentifier`, `IsPlain`, `Filter.Holds`.
Key theorems: `readFilter_buildFilterString`, `buildFilterString_holds_iff`.
-/
import Chronograf.Flux.Filters

namespace Chronograf
namespace Flux

variable (letter : Char → Bool)

/-! ### Reading -/

def isBlank (c : Char) : Bool := c ∈ [' ', '\t', '\r', '\n']

/-- `__` -/
def blanks (cs : List Char) : List Char := cs.dropWhile isBlank

def isIdentStart (c : Char) : Bool := c = '_' || c.isAlpha || 128 ≤ c.toNat && letter c

def isIdentChar (c : Char) : Bool := isIdentStart letter c || c.isDigit

def readIdentifier : List Char → Option (List Char × List Char)
  | [] => none
  | c :: cs => if isIdentStart letter c then some (c :: cs.takeWhile (isIdentChar letter), cs.dropWhile (isIdentChar letter)) else none

/-- The value of a string, to its closing quote. -/
def readString : List Char → Option (List Char × List Char)
  | [] => none
  | '"' :: cs => some ([], cs)
  | '\\' :: '"' :: cs => (readString cs).map fun p => ('"' :: p.1, p.2)
  | '\\' :: _ => none
  | '\n' :: _ => none
  | c :: cs => (readString cs).map fun p => (c :: p.1, p.2)

/-- `r.name` or `r["value"]` -/
def readMember (cs : List Char) : Option (List Char × List Char) :=
  (readIdentifier letter cs).bind fun p =>
    if p.1 = ['r'] then
      match blanks p.2 with
      | '.' :: cs => readIdentifier letter cs
      | '[' :: cs =>
        match blanks cs with
        | '"' :: cs => (readString cs).bind fun q =>
          match blanks q.2 with
          | ']' :: rest => some (q.1, rest)
          | _ => none
        | _ => none
      | _ => none
    else none

def readOperator : List Char → Option (Operator × List Char)
  | '=' :: '=' :: cs => some (.equal, cs)
  | '!' :: '=' :: cs => some (.notEqual, cs)
  | _ => none

def readComparison (cs : List Char) : Option (FilterTagCondition × List Char) :=
  (readMember letter cs).bind fun key =>
    (readOperator (blanks key.2)).bind fun op =>
      match blanks op.2 with
      | '"' :: cs => (readString cs).map fun value => (⟨String.ofList key.1, op.1, String.ofList value.1⟩, value.2)
      | _ => none

def readLogical : List Char →
    Option ((Formula FilterTagCondition → Formula FilterTagCondition → Formula FilterTagCondition) × List Char)
  | a :: b :: cs =>
    if a.toLower = 'o' ∧ b.toLower = 'r' then some (.or, cs)
    else
      match cs with
      | c :: cs => if a.toLower = 'a' ∧ b.toLower = 'n' ∧ c.toLower = 'd' then some (.and, cs) else none
      | [] => none
  | _ => none

mutual

/-- Operands between logical operators. -/
def readExpr : ℕ → List Char → Option (Formula FilterTagCondition × List Char)
  | 0, _ => none
  | n + 1, cs => (readOperand n cs).map fun p => readTail n p.1 p.2

/-- A comparison, or an expression in parentheses. -/
def readOperand : ℕ → List Char → Option (Formula FilterTagCondition × List Char)
  | 0, _ => none
  | n + 1, cs =>
    match blanks cs with
    | '(' :: cs => (readExpr n cs).bind fun p =>
      match blanks p.2 with
      | ')' :: rest => some (p.1, rest)
      | _ => none
    | cs => (readComparison letter cs).map fun p => (.atom p.1, p.2)

/-- The operators and operands after the first one, as many as there are. -/
def readTail : ℕ → Formula FilterTagCondition → List Char → Formula FilterTagCondition × List Char
  | 0, φ, cs => (φ, cs)
  | n + 1, φ, cs =>
    match readLogical (blanks cs) with
    | some (join, rest) =>
      match readOperand n rest with
      | some p => readTail n (join φ p.1) p.2
      | none => (φ, cs)
    | none => (φ, cs)

end

/-- A predicate, or none if the function is always true. -/
abbrev Filter := Option (Formula FilterTagCondition)

/-- `(r) => predicate` or `() => true` -/
def readFunction (cs : List Char) : Option Filter :=
  match cs with
  | '(' :: ')' :: ' ' :: '=' :: '>' :: body => if blanks body = "true".toList then some none else none
  | '(' :: 'r' :: ')' :: ' ' :: '=' :: '>' :: body =>
    (readExpr letter body.length body).bind fun p => if blanks p.2 = [] then some (some p.1) else none
  | _ => none

def readFilter (text : String) : Option Filter := readFunction letter text.toList

/-! ### Reading what is written -/

/-- A key that can stand after a dot. -/
def isIdentifier (key : String) : Bool :=
  match key.toList with
  | [] => false
  | c :: cs => isIdentStart letter c && cs.all (isIdentChar letter)

/-- A value that stands for itself between quotes. -/
def IsPlain (value : String) : Prop := ∀ c ∈ value.toList, c ≠ '"' ∧ c ≠ '\\' ∧ c ≠ '\n'

/-- The condition is read as what it is. -/
structure Readable (c : FilterTagCondition) : Prop where
  key : isIdentifier letter c.key = true
  value : IsPlain c.value
  operator : supportedOperator c.operator = true

theorem blanks_cons {c : Char} {cs : List Char} (h : isBlank c = false) : blanks (c :: cs) = c :: cs :=
  List.dropWhile_cons_of_neg (Bool.eq_false_iff.mp h)

theorem blanks_space (cs : List Char) : blanks (' ' :: cs) = blanks cs := List.dropWhile_cons_of_pos (by decide)

theorem readString_plain : ∀ {value : List Char}, (∀ c ∈ value, c ≠ '"' ∧ c ≠ '\\' ∧ c ≠ '\n') → ∀ rest : List Char,
    readString (value ++ '"' :: rest) = some (value, rest)
  | [], _, rest => by
    rw [List.nil_append, readString]
  | c :: cs, h, rest => by
    obtain ⟨hquote, hescape, hline⟩ := h c List.mem_cons_self
    have ih := readString_plain (fun d hd => h d (List.mem_cons_of_mem c hd)) rest
    rw [List.cons_append, readString]
    · rw [ih]
      rfl
    · exact hquote
    · exact fun _ heq => absurd heq hescape
    · exact hescape
    · exact hline

theorem readIdentifier_key {key rest : List Char} {c : Char} (hstart : isIdentStart letter c = true)
    (hkey : ∀ d ∈ key, isIdentChar letter d = true) (hrest : ∀ d ∈ rest.head?, isIdentChar letter d = false) :
    readIdentifier letter (c :: key ++ rest) = some (c :: key, rest) := by
  have hdrop : ∀ cs : List Char, (∀ d ∈ cs, isIdentChar letter d = true) → (cs ++ rest).takeWhile (isIdentChar letter) = cs ∧
      (cs ++ rest).dropWhile (isIdentChar letter) = rest := by
    intro cs hcs
    induction cs with
    | nil =>
      cases rest with
      | nil => exact ⟨rfl, rfl⟩
      | cons d rest =>
        have hd := Bool.eq_false_iff.mp (hrest d rfl)
        exact ⟨List.takeWhile_cons_of_neg hd, List.dropWhile_cons_of_neg hd⟩
    | cons d cs ih =>
      obtain ⟨htake, hdrop⟩ := ih fun d' hd' => hcs d' (List.mem_cons_of_mem d hd')
      have hd := hcs d List.mem_cons_self
      rw [List.cons_append, List.takeWhile_cons_of_pos hd, List.dropWhile_cons_of_pos hd, htake, hdrop]
      exact ⟨rfl, rfl⟩
  obtain ⟨htake, hdropped⟩ := hdrop key hkey
  rw [List.cons_append, readIdentifier, if_pos hstart, htake, hdropped]

theorem isIdentChar_eq_false {c : Char} (hascii : c.toNat < 128) (h : (c = '_' || c.isAlpha || c.isDigit) = false) :
    isIdentChar letter c = false := by
  simp only [Bool.or_eq_false_iff] at h
  unfold isIdentChar isIdentStart
  rw [h.1.1, h.1.2, h.2, decide_eq_false (Nat.not_le_of_lt hascii)]
  rfl

/-- The text of a condition. -/
def conditionText (key : List Char) (c : FilterTagCondition) : List Char :=
  'r' :: '.' :: key ++ ' ' :: c.operator.source.toList ++ ' ' :: '"' :: c.value.toList ++ ['"']

theorem toList_conditionString (key : String) (c : FilterTagCondition) :
    (conditionString key c).toList = conditionText key.toList c := by
  unfold conditionString conditionText
  simp

theorem readMember_key {key : String} (h : isIdentifier letter key = true) (rest : List Char) :
    readMember letter ('r' :: '.' :: key.toList ++ ' ' :: rest) = some (key.toList, ' ' :: rest) := by
  have hr : readIdentifier letter ('r' :: '.' :: key.toList ++ ' ' :: rest) = some (['r'], '.' :: key.toList ++ ' ' :: rest) := by
    have hstart : isIdentStart letter 'r' = true := by simp [isIdentStart, show Char.isAlpha 'r' = true by decide]
    refine readIdentifier_key letter hstart (fun d hd => absurd hd List.not_mem_nil) fun d hd => ?_
    obtain rfl : '.' = d := Option.some.inj hd
    exact isIdentChar_eq_false letter (by decide) (by decide)
  unfold readMember
  rw [hr, Option.bind_some, if_pos rfl, List.cons_append, blanks_cons (by decide)]
  unfold isIdentifier at h
  cases htext : key.toList with
  | nil =>
    rw [htext] at h
    cases h
  | cons c cs =>
    rw [htext, Bool.and_eq_true, List.all_eq_true] at h
    refine readIdentifier_key letter h.1 h.2 fun d hd => ?_
    obtain rfl : ' ' = d := Option.some.inj hd
    exact isIdentChar_eq_false letter (by decide) (by decide)

theorem readOperator_source {op : Operator} (h : supportedOperator op = true) (rest : List Char) :
    readOperator (blanks (' ' :: (op.source.toList ++ rest))) = some (op, rest) := by
  cases op
  case equal => rfl
  case notEqual => rfl
  all_goals cases h

theorem readComparison_condition {c : FilterTagCondition} (h : Readable letter c) (rest : List Char) :
    readComparison letter (conditionText c.key.toList c ++ rest) = some (c, rest) := by
  have hmember := readMember_key letter h.key (c.operator.source.toList ++ ' ' :: '"' :: (c.value.toList ++ '"' :: rest))
  have hoperator := readOperator_source h.operator (' ' :: '"' :: (c.value.toList ++ '"' :: rest))
  have hvalue := readString_plain h.value rest
  have htext : conditionText c.key.toList c ++ rest = 'r' :: '.' :: c.key.toList ++
      ' ' :: (c.operator.source.toList ++ ' ' :: '"' :: (c.value.toList ++ '"' :: rest)) := by
    simp [conditionText]
  unfold readComparison
  rw [htext, hmember, Option.bind_some, hoperator, Option.bind_some, blanks_space, blanks_cons (by decide)]
  change (readString _).map (fun value =>
    (FilterTagCondition.mk (String.ofList c.key.toList) c.operator (String.ofList value.1), value.2)) = _
  rw [hvalue]
  simp

/-! ### Chains -/

/-- A blank before an operand does not matter. -/
theorem readOperand_space (m : ℕ) (cs : List Char) : readOperand letter m (' ' :: cs) = readOperand letter m cs := by
  cases m with
  | zero => rw [readOperand, readOperand]
  | succ m => rw [readOperand, readOperand, blanks_space]

theorem readExpr_space (m : ℕ) (cs : List Char) : readExpr letter m (' ' :: cs) = readExpr letter m cs := by
  cases m with
  | zero => rw [readExpr, readExpr]
  | succ m => rw [readExpr, readExpr, readOperand_space]

/-- The text is read as an operand, whatever follows. -/
def ReadsAs (text : List Char) (φ : Formula FilterTagCondition) : Prop :=
  ∀ m rest, text.length ≤ m → readOperand letter m (text ++ rest) = some (φ, rest)

namespace ReadsAs

variable {letter} {text : List Char} {φ : Formula FilterTagCondition}

theorem length_pos (h : ReadsAs letter text φ) : 0 < text.length := by
  rcases Nat.eq_zero_or_pos text.length with hzero | hpos
  · have hread := h 0 [] (by omega)
    rw [readOperand] at hread
    cases hread
  · exact hpos

end ReadsAs

theorem readsAs_condition {c : FilterTagCondition} (h : Readable letter c) :
    ReadsAs letter (conditionText c.key.toList c) (.atom c) := by
  intro m rest hm
  have hread := readComparison_condition letter h rest
  have hcons : conditionText c.key.toList c ++ rest = 'r' :: ('.' :: c.key.toList ++ ' ' :: c.operator.source.toList ++
      ' ' :: '"' :: c.value.toList ++ ['"'] ++ rest) := by
    simp [conditionText]
  obtain ⟨m, rfl⟩ : ∃ k, m = k + 1 := ⟨m - 1, by
    have hlength : 0 < (conditionText c.key.toList c).length := by simp [conditionText]
    omega⟩
  rw [hcons] at hread
  rw [readOperand, hcons, blanks_cons (by decide)]
  change (readComparison letter _).map (fun p => (Formula.atom p.1, p.2)) = _
  rw [hread]
  rfl

/-- The text between two operands is read as the operator that joins them. -/
def Joins (sep : List Char) (join : Formula FilterTagCondition → Formula FilterTagCondition → Formula FilterTagCondition) :
    Prop := ∀ rest, readLogical (blanks (sep ++ rest)) = some (join, ' ' :: rest)

theorem joins_or : Joins " OR ".toList .or := fun _ => rfl

theorem joins_and : Joins " AND ".toList .and := fun _ => rfl

/-- No operator follows. -/
def Ends (rest : List Char) : Prop := readLogical (blanks rest) = none

theorem ends_nil : Ends [] := rfl

theorem ends_closeParen (rest : List Char) : Ends (')' :: rest) := by
  unfold Ends
  rw [blanks_cons (by decide)]
  rcases rest with _ | ⟨b, _ | ⟨c, rest⟩⟩
  · rfl
  · rfl
  · rfl

theorem intercalate_cons (sep : List Char) : ∀ (text : List Char) (texts : List (List Char)),
    sep.intercalate (text :: texts) = text ++ texts.flatMap (sep ++ ·)
  | text, [] => by simp
  | text, next :: texts => by
    rw [List.intercalate_cons_cons, intercalate_cons sep next texts]
    simp

section Chain

variable {letter} {sep : List Char}
  {join : Formula FilterTagCondition → Formula FilterTagCondition → Formula FilterTagCondition} (hjoin : Joins sep join)

include hjoin

theorem readTail_chain : ∀ (items : List (List Char × Formula FilterTagCondition)) (m : ℕ) (φ : Formula FilterTagCondition)
    {rest : List Char}, (∀ x ∈ items, ReadsAs letter x.1 x.2) → Ends rest → (items.flatMap (sep ++ ·.1)).length < m →
    readTail letter m φ (items.flatMap (sep ++ ·.1) ++ rest) = ((items.map Prod.snd).foldl join φ, rest)
  | [], m, φ, rest, _, hends, hm => by
    obtain ⟨m, rfl⟩ : ∃ k, m = k + 1 := ⟨m - 1, by omega⟩
    rw [List.flatMap_nil, List.nil_append, readTail, hends]
    rfl
  | x :: items, m, φ, rest, hitems, hends, hm => by
    have hx := hitems x List.mem_cons_self
    have hpos := hx.length_pos
    rw [List.flatMap_cons, List.length_append, List.length_append] at hm
    obtain ⟨m, rfl⟩ : ∃ k, m = k + 1 := ⟨m - 1, by omega⟩
    have hrest := readTail_chain items m (join φ x.2) (fun y hy => hitems y (List.mem_cons_of_mem x hy)) hends (by omega)
    rw [List.flatMap_cons, List.append_assoc, List.append_assoc, readTail, hjoin]
    dsimp only
    rw [readOperand_space, hx m _ (by omega)]
    exact hrest

theorem readExpr_chain {x : List Char × Formula FilterTagCondition} {items : List (List Char × Formula FilterTagCondition)}
    {rest : List Char} {m : ℕ} (hitems : ∀ y ∈ x :: items, ReadsAs letter y.1 y.2) (hends : Ends rest)
    (hm : (sep.intercalate ((x :: items).map Prod.fst)).length < m) :
    readExpr letter m (sep.intercalate ((x :: items).map Prod.fst) ++ rest) =
      some ((items.map Prod.snd).foldl join x.2, rest) := by
  have hx := hitems x List.mem_cons_self
  have hpos := hx.length_pos
  have htext : sep.intercalate ((x :: items).map Prod.fst) = x.1 ++ items.flatMap (sep ++ ·.1) := by
    rw [List.map_cons, intercalate_cons, List.flatMap_map]
  rw [htext, List.length_append] at hm
  obtain ⟨m, rfl⟩ : ∃ k, m = k + 1 := ⟨m - 1, by omega⟩
  rw [htext, List.append_assoc, readExpr, hx m _ (by omega), Option.map_some,
    readTail_chain hjoin items m x.2 (fun y hy => hitems y (List.mem_cons_of_mem x hy)) hends (by omega)]

/-- A chain in parentheses is an operand. -/
theorem readsAs_parens {x : List Char × Formula FilterTagCondition} {items : List (List Char × Formula FilterTagCondition)}
    (hitems : ∀ y ∈ x :: items, ReadsAs letter y.1 y.2) :
    ReadsAs letter ('(' :: sep.intercalate ((x :: items).map Prod.fst) ++ [')']) ((items.map Prod.snd).foldl join x.2) := by
  intro m rest hm
  rw [List.length_append, List.length_cons, List.length_singleton] at hm
  obtain ⟨m, rfl⟩ : ∃ k, m = k + 1 := ⟨m - 1, by omega⟩
  have hexpr := readExpr_chain hjoin (m := m) hitems (ends_closeParen rest) (by omega)
  rw [List.append_assoc, List.cons_append, List.singleton_append, readOperand, blanks_cons (by decide)]
  change (readExpr letter m _).bind _ = _
  rw [hexpr, Option.bind_some, blanks_cons (by decide)]
  rfl

end Chain

theorem readFunction_body (text : List Char) : readFunction letter ("(r) => ".toList ++ text) =
    (readExpr letter (text.length + 1) text).bind fun p => if blanks p.2 = [] then some (some p.1) else none := by
  rw [← readExpr_space]
  rfl

theorem readFunction_chain {letter : Char → Bool} {x : List Char × Formula FilterTagCondition}
    {items : List (List Char × Formula FilterTagCondition)} (hitems : ∀ y ∈ x :: items, ReadsAs letter y.1 y.2) :
    readFunction letter ("(r) => ".toList ++ " AND ".toList.intercalate ((x :: items).map Prod.fst)) =
      some (some ((items.map Prod.snd).foldl .and x.2)) := by
  have hexpr := readExpr_chain joins_and hitems ends_nil (Nat.lt_succ_self _)
  rw [List.append_nil] at hexpr
  rw [readFunction_body, hexpr]
  rfl

/-! ### What a clause is read as -/

instance : Compares FilterTagCondition String String where
  key := FilterTagCondition.key
  value := FilterTagCondition.value
  isEqual := fun c => c.operator = .equal

/-- The rows that a list of conditions describes. -/
def Describes (cs : List FilterTagCondition) (row : String → String) : Prop := Compares.Describes cs row

def Filter.Holds (f : Filter) (row : String → String) : Prop := ∀ φ ∈ f, φ.Holds (Compares.Holds row)

theorem describes_iff {cs : List FilterTagCondition} {row : String → String} : Describes cs row ↔
    ∀ c ∈ cs, if c.operator = .equal then ∃ d ∈ cs, d.operator = .equal ∧ d.key = c.key ∧ row d.key = d.value
      else row c.key ≠ c.value := by
  simp [Describes, Compares.Describes, Compares.key, Compares.value, Compares.isEqual]

theorem holds_equal {c : FilterTagCondition} {row : String → String} (h : c.operator = .equal) :
    Compares.Holds row c ↔ row c.key = c.value := Compares.holds_of_isEqual (decide_eq_true h)

theorem holds_notEqual {c : FilterTagCondition} {row : String → String} (h : c.operator ≠ .equal) :
    Compares.Holds row c ↔ row c.key ≠ c.value := Compares.holds_of_not_isEqual (decide_eq_false h)

section Clause

variable {clause : FilterClause} {cs : List FilterTagCondition} (hgroups : Groups clause cs)

include hgroups

/-- The clause describes what its entries do. -/
theorem describes_entries (row : String → String) : (∀ e ∈ clause, Describes e.2 row) ↔ Describes cs row := by
  have hmem : ∀ {e c}, e ∈ clause → (c ∈ e.2 ↔ c ∈ cs ∧ c.key = e.1) := by
    intro e c he
    rw [hgroups.ofKey e he, ofKey, List.mem_filter, decide_eq_true_eq]
  simp only [describes_iff]
  constructor
  · intro h c hc
    obtain ⟨e, he, hkey⟩ := List.mem_map.mp (hgroups.keys c hc)
    have hdescribed := h e he c ((hmem he).mpr ⟨hc, hkey.symm⟩)
    split_ifs at hdescribed ⊢ with hequal
    · obtain ⟨d, hd, hd'⟩ := hdescribed
      exact ⟨d, ((hmem he).mp hd).1, hd'⟩
    · exact hdescribed
  · intro h e he c hc
    obtain ⟨hc, hkey⟩ := (hmem he).mp hc
    have hdescribed := h c hc
    split_ifs at hdescribed ⊢ with hequal
    · obtain ⟨d, hd, hop, hdkey, hvalue⟩ := hdescribed
      exact ⟨d, (hmem he).mpr ⟨hd, hdkey.trans hkey⟩, hop, hdkey, hvalue⟩
    · exact hdescribed

variable {letter} (hone : OneOperator cs) (hreadable : ∀ c ∈ cs, Readable letter c)

include hone hreadable

theorem readsAs_subClause {e : String × List FilterTagCondition} (he : e ∈ clause) (hne : e.2 ≠ []) :
    ∃ φ, ReadsAs letter (subClause clause e).toList φ ∧ ∀ row, φ.Holds (Compares.Holds row) ↔ Describes e.2 row := by
  have hmem : ∀ c ∈ e.2, c ∈ cs ∧ c.key = e.1 := by
    intro c hc
    rw [hgroups.ofKey e he] at hc
    exact ⟨(List.mem_filter.mp hc).1, of_decide_eq_true (List.mem_filter.mp hc).2⟩
  have hop : ∀ c ∈ e.2, c.operator = operator e.1 clause := fun c hc => by
    rw [← (hmem c hc).2, operator_eq hgroups hone (hmem c hc).1]
  -- each condition with its text
  obtain ⟨items, hitems, hfst, hsnd⟩ : ∃ items : List (List Char × Formula FilterTagCondition),
      (∀ y ∈ items, ReadsAs letter y.1 y.2) ∧ items.map Prod.fst = e.2.map (conditionText e.1.toList) ∧
        items.map Prod.snd = e.2.map .atom := by
    refine ⟨e.2.map fun c => (conditionText e.1.toList c, .atom c), fun y hy => ?_, ?_, ?_⟩
    · obtain ⟨c, hc, rfl⟩ := List.mem_map.mp hy
      rw [← (hmem c hc).2]
      exact readsAs_condition letter (hreadable c (hmem c hc).1)
    · rw [List.map_map]
      rfl
    · rw [List.map_map]
      rfl
  cases items with
  | nil => exact absurd (List.map_eq_nil_iff.mp hsnd.symm) hne
  | cons x items =>
    have htext : ∀ sep : String, ("(" ++ sep.intercalate (e.2.map (conditionString e.1)) ++ ")").toList =
        '(' :: sep.toList.intercalate ((x :: items).map Prod.fst) ++ [')'] := by
      intro sep
      have hmap : (e.2.map (conditionString e.1)).map String.toList = e.2.map (conditionText e.1.toList) := by
        rw [List.map_map]
        exact List.map_congr_left fun c _ => toList_conditionString e.1 c
      simp only [String.toList_append, String.toList_intercalate, hmap, hfst]
      rfl
    have hall : ∀ P : Formula FilterTagCondition → Prop, (P x.2 ∧ ∀ ψ ∈ items.map Prod.snd, P ψ) ↔ ∀ c ∈ e.2, P (.atom c) := by
      intro P
      have hforall : (∀ ψ ∈ (x :: items).map Prod.snd, P ψ) ↔ ∀ c ∈ e.2, P (.atom c) := by
        rw [hsnd]
        simp
      rw [← hforall, List.map_cons, List.forall_mem_cons]
    have hany : ∀ P : Formula FilterTagCondition → Prop, (P x.2 ∨ ∃ ψ ∈ items.map Prod.snd, P ψ) ↔ ∃ c ∈ e.2, P (.atom c) := by
      intro P
      have hexists : (∃ ψ ∈ (x :: items).map Prod.snd, P ψ) ↔ ∃ c ∈ e.2, P (.atom c) := by
        rw [hsnd]
        simp
      rw [← hexists, List.map_cons]
      simp
    unfold subClause
    dsimp only
    rw [htext]
    by_cases hequal : operator e.1 clause = .equal
    · rw [if_pos hequal]
      refine ⟨_, readsAs_parens joins_or hitems, fun row => ?_⟩
      rw [Formula.holds_foldl_or, hany, describes_iff]
      have hequal' : ∀ c ∈ e.2, c.operator = .equal := fun c hc => (hop c hc).trans hequal
      constructor
      · rintro ⟨c, hc, hholds⟩ d hd
        rw [if_pos (hequal' d hd)]
        refine ⟨c, hc, hequal' c hc, ?_, (holds_equal (hequal' c hc)).mp hholds⟩
        rw [(hmem c hc).2, (hmem d hd).2]
      · intro hdescribes
        obtain ⟨c, hc⟩ := List.exists_mem_of_ne_nil e.2 hne
        have hdescribed := hdescribes c hc
        rw [if_pos (hequal' c hc)] at hdescribed
        obtain ⟨d, hd, hop', -, hvalue⟩ := hdescribed
        exact ⟨d, hd, (holds_equal hop').mpr hvalue⟩
    · rw [if_neg hequal]
      refine ⟨_, readsAs_parens joins_and hitems, fun row => ?_⟩
      rw [Formula.holds_foldl_and, hall, describes_iff]
      refine forall₂_congr fun c hc => ?_
      have hne' : c.operator ≠ .equal := fun heq => hequal ((hop c hc).symm.trans heq)
      rw [if_neg hne']
      exact holds_notEqual hne'

/-- The function that is written is read as a predicate for the rows described. -/
theorem readFilter_buildFilterString : ∃ f : Filter, readFilter letter (buildFilterString clause) = some f ∧
    ∀ row, f.Holds row ↔ Describes cs row := by
  have hdescribes : ∀ row, (∀ e ∈ clause.filter fun e => e.2 ≠ [], Describes e.2 row) ↔ Describes cs row := by
    intro row
    rw [← describes_entries hgroups]
    constructor
    · intro h e he
      by_cases hne : e.2 = []
      · rw [hne]
        exact fun c hc => absurd hc List.not_mem_nil
      · exact h e (List.mem_filter.mpr ⟨he, decide_eq_true hne⟩)
    · exact fun h e he => h e (List.mem_filter.mp he).1
  have hentries : ∀ e ∈ clause.filter fun e => e.2 ≠ [], ∃ φ, ReadsAs letter (subClause clause e).toList φ ∧
      ∀ row, φ.Holds (Compares.Holds row) ↔ Describes e.2 row := by
    intro e he
    obtain ⟨he, hne⟩ := List.mem_filter.mp he
    exact readsAs_subClause hgroups hone hreadable he (of_decide_eq_true hne)
  unfold buildFilterString readFilter
  dsimp only
  generalize clause.filter (fun e => e.2 ≠ []) = entries at hdescribes hentries
  cases entries with
  | nil =>
    have hread : readFunction letter "() => true".toList = some none := rfl
    refine ⟨none, hread, fun row => ?_⟩
    rw [← hdescribes row]
    exact iff_of_true (fun φ hφ => nomatch hφ) fun e he => absurd he List.not_mem_nil
  | cons e entries =>
    choose φ hreads hholds using hentries
    -- each entry with its text
    have hitems : ∃ items : List (List Char × Formula FilterTagCondition), (∀ y ∈ items, ReadsAs letter y.1 y.2) ∧
        items.map Prod.fst = (e :: entries).map (fun e => (subClause clause e).toList) ∧
        ∀ row, (∀ y ∈ items, y.2.Holds (Compares.Holds row)) ↔ ∀ e' ∈ e :: entries, Describes e'.2 row := by
      refine ⟨(e :: entries).attach.map fun e' => ((subClause clause e'.1).toList, φ e'.1 e'.2), fun y hy => ?_, ?_,
        fun row => ?_⟩
      · obtain ⟨e', -, rfl⟩ := List.mem_map.mp hy
        exact hreads e'.1 e'.2
      · rw [List.map_map]
        change (e :: entries).attach.map (fun e' => (subClause clause e'.1).toList) = _
        exact List.attach_map_val (f := fun e => (subClause clause e).toList)
      · constructor
        · intro h e' he'
          exact (hholds e' he' row).mp (h _ (List.mem_map.mpr ⟨⟨e', he'⟩, List.mem_attach _ _, rfl⟩))
        · intro h y hy
          obtain ⟨e', -, rfl⟩ := List.mem_map.mp hy
          exact (hholds e'.1 e'.2 row).mpr (h e'.1 e'.2)
    obtain ⟨items, hitems, hfst, hholds⟩ := hitems
    cases items with
    | nil => cases hfst
    | cons x items =>
      have htext : (" AND ".intercalate ((e :: entries).map (subClause clause))).toList =
          " AND ".toList.intercalate ((x :: items).map Prod.fst) := by
        rw [String.toList_intercalate, hfst, List.map_map]
        rfl
      have hnonempty : " AND ".intercalate ((e :: entries).map (subClause clause)) ≠ "" := by
        intro hempty
        have hnil := htext.symm.trans (congrArg String.toList hempty)
        rw [List.map_cons, intercalate_cons] at hnil
        have hpos := (hitems x List.mem_cons_self).length_pos
        have hzero := congrArg List.length hnil
        rw [List.length_append] at hzero
        change _ = 0 at hzero
        omega
      rw [if_neg hnonempty, String.toList_append, htext]
      refine ⟨_, readFunction_chain hitems, fun row => ?_⟩
      rw [← hdescribes row, ← hholds row]
      have hsnd : ∀ P : Formula FilterTagCondition → Prop, (∀ ψ ∈ items.map Prod.snd, P ψ) ↔ ∀ y ∈ items, P y.2 :=
        fun P => List.forall_mem_map
      simp only [Filter.Holds, Option.mem_def, Option.some.injEq, forall_eq', Formula.holds_foldl_and, hsnd,
        List.forall_mem_cons]

end Clause

end Flux
end Chronograf
