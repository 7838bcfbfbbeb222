/-
# The filter builder

The body of a filter function is flattened by `Walker.inOrder` of
`flux/ast/walker.ts`; `reduceNodesToClause` of `flux/components/FilterTagList.tsx`
takes the comparisons out of the nodes and groups them by key, and
`buildFilterString` writes a function again, when a condition was added or
removed. Parentheses and logical operators are passed over on the way, quotes
are taken out of the values and none are put around the keys.

An object is the list of its entries, in the order they were made.

Key definitions: `Expression.inOrder`, `reduceNodesToClause`, `addCondition`,
`removeCondition`, `buildFilterString`, `Comparison.ast`.
Key theorems: `reduceNodesToClause_predicate`, `groups_groupBy`, `groups_addCondition`,
`groups_removeCondition`.
-/
import Chronograf.Lib.Alternatives

namespace Chronograf
namespace Flux

/-! ### Expressions and their nodes -/

inductive Operator
  | and | or
  | equal | notEqual | regexpMatch | notRegexpMatch
  | lessThanEqual | lessThan | greaterThan | greaterThanEqual
  | startsWith | isIn | notEmpty | isEmpty
  deriving DecidableEq

def Operator.source : Operator → String
  | and => "and"
  | or => "or"
  | equal => "=="
  | notEqual => "!="
  | regexpMatch => "=~"
  | notRegexpMatch => "!~"
  | lessThanEqual => "<="
  | lessThan => "<"
  | greaterThan => ">"
  | greaterThanEqual => ">="
  | startsWith => "startswith"
  | isIn => "in"
  | notEmpty => "not empty"
  | isEmpty => "empty"

/-- A text that a string literal can have: the only escape there is is `\"`. -/
structure Literal where
  value : String
  writable : ∀ c ∈ value.toList, c ≠ '\\' ∧ c ≠ '\n'

/-- A character as it is written between quotes. -/
def escaped (c : Char) : List Char := if c = '"' then ['\\', '"'] else [c]

def Literal.source (l : Literal) : String := String.ofList ('"' :: l.value.toList.flatMap escaped ++ ['"'])

/-- The property of a member: `r.name` or `r["value"]`. -/
inductive Property
  | identifier (name : String)
  | stringLiteral (l : Literal)

def Property.name : Property → String
  | identifier name => name
  | stringLiteral l => l.value

inductive Expression
  | logical (operator : Operator) (left right : Expression)
  | binary (operator : Operator) (left right : Expression)
  | member (object : String) (property : Property)
  | stringLiteral (l : Literal)
  | booleanLiteral (value : Bool) (source : String)

inductive Node
  | openParen
  | closeParen
  | operator (source : Operator)
  | member (object property : String)
  | stringLiteral (source : String)
  | booleanLiteral (source : String)

/-- An OR below an AND. -/
def hasParen (operator : Operator) : Expression → Bool
  | .logical op _ _ => operator = .and && op = .or
  | _ => false

/-- A literal that is falsy has no node. -/
def Expression.inOrder (paren : Bool) (e : Expression) : List Node :=
  (if paren then [.openParen] else []) ++
    (match e with
      | logical op l r | binary op l r => l.inOrder (hasParen op l) ++ .operator op :: r.inOrder (hasParen op r)
      | member object property => [.member object property.name]
      | stringLiteral l => if l.value = "" then [] else [.stringLiteral l.source]
      | booleanLiteral value source => if value then [.booleanLiteral source] else []) ++
    if paren then [.closeParen] else []

/-! ### Clauses -/

structure FilterTagCondition where
  key : String
  operator : Operator
  value : String
  deriving DecidableEq

abbrev FilterClause := List (String × List FilterTagCondition)

/-- `{...clause, [key]: conditions}` -/
def FilterClause.set (clause : FilterClause) (key : String) (conditions : List FilterTagCondition) : FilterClause :=
  if key ∈ clause.map Prod.fst then clause.map fun e => if e.1 = key then (key, conditions) else e
  else clause ++ [(key, conditions)]

def conditions (key : String) (clause : FilterClause) : List FilterTagCondition := (clause.lookup key).getD []

/-- The conditions of each key, in their order. -/
def groupBy (cs : List FilterTagCondition) : FilterClause :=
  cs.foldl (fun clause c => clause.set c.key (conditions c.key clause ++ [c])) []

def validateClause (clause : FilterClause) : Bool :=
  clause.all fun e => e.2.all fun c => (e.2.head?.map (·.operator)) = some c.operator

def constructClause (cs : List FilterTagCondition) : FilterClause × Bool :=
  if validateClause (groupBy cs) then (groupBy cs, true) else ([], false)

def supportedOperator (op : Operator) : Bool := op = .equal || op = .notEqual

/-- The text without its quotes. -/
def unquoted (source : String) : String := String.ofList (source.toList.filter (· ≠ '"'))

/-- The clause, and whether the nodes are parseable. -/
def reduceNodesToClause : List Node → List FilterTagCondition → FilterClause × Bool
  | [], cs => constructClause cs
  | [.booleanLiteral source], cs => ([], cs = [] ∧ source = "true")
  | .openParen :: nodes, cs | .closeParen :: nodes, cs | .operator _ :: nodes, cs => reduceNodesToClause nodes cs
  | .member _ key :: .operator op :: .stringLiteral source :: nodes, cs =>
    if supportedOperator op then reduceNodesToClause nodes (cs ++ [⟨key, op, unquoted source⟩]) else ([], false)
  | _, _ => ([], false)

/-! ### Changing a clause and writing it -/

def operator (key : String) (clause : FilterClause) : Operator :=
  ((conditions key clause).head?.map (·.operator)).getD .equal

def addCondition (clause : FilterClause) (condition : FilterTagCondition) : FilterClause :=
  clause.set condition.key (conditions condition.key clause ++ [condition])

def removeCondition (clause : FilterClause) (condition : FilterTagCondition) : FilterClause :=
  clause.set condition.key ((conditions condition.key clause).filter (· ≠ condition))

/-- A value that is picked or taken away in the list of a key. -/
def handleChangeValue (clause : FilterClause) (key value : String) (selected : Bool) : FilterClause :=
  let condition := ⟨key, operator key clause, value⟩
  if selected then addCondition clause condition else removeCondition clause condition

def conditionString (key : String) (c : FilterTagCondition) : String :=
  "r." ++ key ++ " " ++ c.operator.source ++ " \"" ++ c.value ++ "\""

def subClause (clause : FilterClause) (e : String × List FilterTagCondition) : String :=
  let joiner := if operator e.1 clause = .equal then " OR " else " AND "
  "(" ++ joiner.intercalate (e.2.map (conditionString e.1)) ++ ")"

def buildFilterString (clause : FilterClause) : String :=
  let funcBody := " AND ".intercalate ((clause.filter fun e => e.2 ≠ []).map (subClause clause))
  if funcBody = "" then "() => true" else "(r) => " ++ funcBody

/-! ### Predicates -/

/-- A member of `r` compared with a string, on whichever side. -/
structure Comparison where
  property : Property
  operator : Operator
  literal : Literal
  flipped : Bool
  compares : operator ≠ .and ∧ operator ≠ .or

namespace Comparison

def ast (c : Comparison) : Expression :=
  if c.flipped then .binary c.operator (.stringLiteral c.literal) (.member "r" c.property)
  else .binary c.operator (.member "r" c.property) (.stringLiteral c.literal)

/-- The comparison as it is read by the filter builder. -/
def extracted (c : Comparison) : FilterTagCondition := ⟨c.property.name, c.operator, unquoted c.literal.source⟩

def Extractable (c : Comparison) : Prop := supportedOperator c.operator = true ∧ c.flipped = false ∧ c.literal.value ≠ ""

instance : DecidablePred Extractable := fun _ => inferInstanceAs (Decidable (_ ∧ _))

end Comparison

/-- A tree of AND and OR over comparisons. -/
abbrev Predicate := Formula Comparison

def Predicate.ast : Predicate → Expression
  | .atom c => c.ast
  | .and l r => .logical .and (Predicate.ast l) (Predicate.ast r)
  | .or l r => .logical .or (Predicate.ast l) (Predicate.ast r)

/-- What `Walker.inOrderExpression` gives for a function with this body. -/
def Predicate.nodes (φ : Predicate) : List Node := (Predicate.ast φ).inOrder false

/-! ### What is extracted of a predicate -/

theorem inOrder_paren (e : Expression) : e.inOrder true = .openParen :: (e.inOrder false ++ [.closeParen]) := by
  unfold Expression.inOrder
  simp

theorem inOrder_logical {op : Operator} {l r : Expression} : (Expression.logical op l r).inOrder false =
    l.inOrder (hasParen op l) ++ .operator op :: r.inOrder (hasParen op r) := by
  rw [Expression.inOrder]
  simp

/-- What may follow the nodes of an operand. -/
inductive Follows : List Node → Prop
  | nil : Follows []
  | closeParen (rest : List Node) : Follows (.closeParen :: rest)
  | and (rest : List Node) : Follows (.operator .and :: rest)
  | or (rest : List Node) : Follows (.operator .or :: rest)

/-- The nodes of an operand are those of the conditions `new`, or else not parseable. -/
def Extracts (e : Expression) (parseable : Prop) [Decidable parseable] (new : List FilterTagCondition) : Prop :=
  ∀ (paren : Bool) (rest : List Node) (cs : List FilterTagCondition), Follows rest →
    reduceNodesToClause (e.inOrder paren ++ rest) cs =
      if parseable then reduceNodesToClause rest (cs ++ new) else ([], false)

/-- Parentheses are passed over. -/
theorem Extracts.of_inOrder {e : Expression} {parseable : Prop} [Decidable parseable] {new : List FilterTagCondition}
    (h : ∀ (rest : List Node) (cs : List FilterTagCondition), Follows rest →
      reduceNodesToClause (e.inOrder false ++ rest) cs =
        if parseable then reduceNodesToClause rest (cs ++ new) else ([], false)) : Extracts e parseable new := by
  intro paren rest cs hrest
  cases paren with
  | false => exact h rest cs hrest
  | true =>
    rw [inOrder_paren, List.cons_append, reduceNodesToClause, List.append_assoc, List.singleton_append,
      h _ cs (.closeParen rest), reduceNodesToClause]

theorem Extracts.logical {op : Operator} {l r : Expression} {pl pr : Prop} [Decidable pl] [Decidable pr]
    {newl newr : List FilterTagCondition} (hop : op = .and ∨ op = .or) (hl : Extracts l pl newl) (hr : Extracts r pr newr) :
    Extracts (.logical op l r) (pl ∧ pr) (newl ++ newr) := by
  refine .of_inOrder fun rest cs hrest => ?_
  have hfollows : ∀ nodes, Follows (.operator op :: nodes) := fun nodes => by
    rcases hop with rfl | rfl
    · exact .and nodes
    · exact .or nodes
  rw [inOrder_logical, List.append_assoc, List.cons_append, hl _ _ cs (hfollows _), reduceNodesToClause]
  by_cases hpl : pl
  · rw [if_pos hpl, hr _ _ _ hrest, List.append_assoc]
    simp only [hpl, true_and]
  · rw [if_neg hpl, if_neg fun h => hpl h.1]

/-- Nothing is extracted of a member that no operator and string follow. -/
theorem reduceNodesToClause_member {object key : String} {rest : List Node} (hrest : Follows rest)
    (cs : List FilterTagCondition) :
    (∀ op, reduceNodesToClause (.member object key :: .operator op :: rest) cs = ([], false)) ∧
      reduceNodesToClause (.member object key :: rest) cs = ([], false) := by
  cases hrest with
  | nil => exact ⟨fun _ => rfl, rfl⟩
  | closeParen rest => exact ⟨fun _ => rfl, rfl⟩
  | and rest =>
    refine ⟨fun _ => rfl, ?_⟩
    cases rest with
    | nil => rfl
    | cons node rest => cases node <;> rfl
  | or rest =>
    refine ⟨fun _ => rfl, ?_⟩
    cases rest with
    | nil => rfl
    | cons node rest => cases node <;> rfl

theorem extracts_comparison (c : Comparison) : Extracts c.ast c.Extractable [c.extracted] := by
  refine .of_inOrder fun rest cs hrest => ?_
  have hliteral : (Expression.stringLiteral c.literal).inOrder false =
      if c.literal.value = "" then [] else [.stringLiteral c.literal.source] := by
    unfold Expression.inOrder
    simp
  have hmember : (Expression.member "r" c.property).inOrder false = [.member "r" c.property.name] := rfl
  have hbinary : ∀ l r : Expression, (Expression.binary c.operator l r).inOrder false =
      l.inOrder (hasParen c.operator l) ++ .operator c.operator :: r.inOrder (hasParen c.operator r) := by
    intro l r
    rw [Expression.inOrder]
    simp
  have hparen : hasParen c.operator (.stringLiteral c.literal) = false ∧ hasParen c.operator (.member "r" c.property) = false :=
    ⟨rfl, rfl⟩
  unfold Comparison.ast
  by_cases hflipped : c.flipped = true
  · have hnot : ¬ c.Extractable := fun h => absurd hflipped (Bool.eq_false_iff.mp h.2.1)
    rw [if_pos hflipped, hbinary, hparen.1, hparen.2, hmember, hliteral, if_neg hnot]
    by_cases hempty : c.literal.value = ""
    · rw [if_pos hempty, List.nil_append, List.cons_append, List.singleton_append, reduceNodesToClause]
      exact (reduceNodesToClause_member hrest cs).2
    · rw [if_neg hempty]
      rfl
  · rw [if_neg hflipped, hbinary, hparen.1, hparen.2, hmember, hliteral]
    by_cases hempty : c.literal.value = ""
    · rw [if_pos hempty, if_neg fun h => h.2.2 hempty]
      exact (reduceNodesToClause_member hrest cs).1 c.operator
    · have hiff : c.Extractable ↔ supportedOperator c.operator = true :=
        ⟨fun h => h.1, fun h => ⟨h, Bool.eq_false_iff.mpr hflipped, hempty⟩⟩
      rw [if_neg hempty]
      simp only [hiff]
      rfl

/-- All comparisons of a predicate are extracted, or it is not parseable. -/
theorem extracts_ast : ∀ φ : Predicate,
    Extracts (Predicate.ast φ) (∀ c ∈ φ.atoms, c.Extractable) (φ.atoms.map Comparison.extracted)
  | .atom c => by
    have h := extracts_comparison c
    simpa only [Extracts, Formula.atoms, List.forall_mem_singleton, List.map_singleton, Predicate.ast] using h
  | .and l r => by
    have h : Extracts (.logical .and _ _) _ _ := Extracts.logical (.inl rfl) (extracts_ast l) (extracts_ast r)
    simpa only [Extracts, Formula.atoms, List.forall_mem_append, List.map_append, Predicate.ast] using h
  | .or l r => by
    have h : Extracts (.logical .or _ _) _ _ := Extracts.logical (.inr rfl) (extracts_ast l) (extracts_ast r)
    simpa only [Extracts, Formula.atoms, List.forall_mem_append, List.map_append, Predicate.ast] using h

theorem reduceNodesToClause_predicate (φ : Predicate) : reduceNodesToClause (Predicate.nodes φ) [] =
    if ∀ c ∈ φ.atoms, c.Extractable then constructClause (φ.atoms.map Comparison.extracted) else ([], false) := by
  have h := extracts_ast φ false [] [] .nil
  rwa [List.append_nil, List.nil_append, reduceNodesToClause] at h

/-! ### Conditions by key -/

/-- The conditions of one key. -/
def ofKey (key : String) (cs : List FilterTagCondition) : List FilterTagCondition := cs.filter fun c => c.key = key

/-- The clause has the conditions `cs`, each under its key. -/
structure Groups (clause : FilterClause) (cs : List FilterTagCondition) : Prop where
  nodup : (clause.map Prod.fst).Nodup
  ofKey : ∀ e ∈ clause, e.2 = Flux.ofKey e.1 cs
  keys : ∀ c ∈ cs, c.key ∈ clause.map Prod.fst

namespace Groups

variable {clause : FilterClause} {cs : List FilterTagCondition}

theorem conditions_eq (h : Groups clause cs) (key : String) : conditions key clause = Flux.ofKey key cs := by
  unfold conditions
  cases hlookup : clause.lookup key with
  | none =>
    refine (List.filter_eq_nil_iff.mpr fun c hc heq => ?_).symm
    obtain ⟨e, he, hkey⟩ := List.mem_map.mp (h.keys c hc)
    have hne := List.lookup_eq_none_iff.mp hlookup e he
    rw [hkey.trans (of_decide_eq_true heq), bne_self_eq_false] at hne
    cases hne
  | some found =>
    obtain ⟨before, after, hsplit, -⟩ := List.lookup_eq_some_iff.mp hlookup
    exact h.ofKey (key, found) (hsplit ▸ List.mem_append_right _ List.mem_cons_self)

/-- Only the conditions of one key have changed. -/
theorem set (h : Groups clause cs) {key : String} {cs' : List FilterTagCondition}
    (hothers : ∀ k, k ≠ key → Flux.ofKey k cs' = Flux.ofKey k cs) : Groups (clause.set key (Flux.ofKey key cs')) cs' := by
  have hkeys : ∀ c ∈ cs', c.key ≠ key → c.key ∈ clause.map Prod.fst := by
    intro c hc hne
    have hmem : c ∈ Flux.ofKey c.key cs' := List.mem_filter.mpr ⟨hc, decide_eq_true rfl⟩
    rw [hothers c.key hne] at hmem
    exact h.keys c (List.mem_filter.mp hmem).1
  unfold FilterClause.set
  split_ifs with hold
  · have hfst : (clause.map fun e => if e.1 = key then (key, Flux.ofKey key cs') else e).map Prod.fst = clause.map Prod.fst := by
      rw [List.map_map]
      refine List.map_congr_left fun e _ => ?_
      rw [Function.comp_apply]
      split_ifs with heq
      · exact heq.symm
      · rfl
    refine ⟨hfst ▸ h.nodup, fun e he => ?_, fun c hc => ?_⟩
    · obtain ⟨e', he', rfl⟩ := List.mem_map.mp he
      split_ifs with heq
      · rfl
      · rw [h.ofKey e' he', hothers e'.1 heq]
    · rw [hfst]
      by_cases hkey : c.key = key
      · rw [hkey]
        exact hold
      · exact hkeys c hc hkey
  · refine ⟨?_, fun e he => ?_, fun c hc => ?_⟩
    · rw [List.map_append, List.map_singleton]
      refine List.nodup_append.mpr ⟨h.nodup, List.nodup_singleton _, fun k hk k' hk' heq => ?_⟩
      rw [heq, List.mem_singleton.mp hk'] at hk
      exact hold hk
    · rcases List.mem_append.mp he with he | he
      · have hne : e.1 ≠ key := fun heq => hold (heq ▸ List.mem_map_of_mem he)
        rw [h.ofKey e he, hothers e.1 hne]
      · rw [List.mem_singleton.mp he]
    · rw [List.map_append, List.mem_append]
      by_cases hkey : c.key = key
      · exact .inr (List.mem_singleton.mpr hkey)
      · exact .inl (hkeys c hc hkey)

theorem addCondition (h : Groups clause cs) (c : FilterTagCondition) : Groups (addCondition clause c) (cs ++ [c]) := by
  have hadded : Flux.ofKey c.key (cs ++ [c]) = conditions c.key clause ++ [c] := by
    rw [h.conditions_eq, Flux.ofKey, List.filter_append]
    simp [Flux.ofKey]
  unfold Flux.addCondition
  rw [← hadded]
  refine h.set fun k hk => ?_
  rw [Flux.ofKey, List.filter_append]
  simp [Flux.ofKey, hk.symm]

theorem removeCondition (h : Groups clause cs) (c : FilterTagCondition) :
    Groups (removeCondition clause c) (cs.filter (· ≠ c)) := by
  have hcomm : ∀ k, Flux.ofKey k (cs.filter (· ≠ c)) = (Flux.ofKey k cs).filter (· ≠ c) := by
    intro k
    unfold Flux.ofKey
    rw [List.filter_filter, List.filter_filter]
    refine List.filter_congr fun d _ => ?_
    exact Bool.and_comm _ _
  unfold Flux.removeCondition
  rw [h.conditions_eq, ← hcomm]
  refine h.set fun k hk => ?_
  rw [hcomm, List.filter_eq_self]
  intro d hd
  refine decide_eq_true fun heq => hk ?_
  rw [← of_decide_eq_true (List.mem_filter.mp hd).2, heq]

end Groups

theorem groups_groupBy (cs : List FilterTagCondition) : Groups (groupBy cs) cs := by
  induction cs using List.reverseRecOn with
  | nil => exact ⟨List.nodup_nil, fun e he => absurd he List.not_mem_nil, fun c hc => absurd hc List.not_mem_nil⟩
  | append_singleton cs c ih =>
    unfold groupBy at ih ⊢
    rw [List.foldl_append]
    exact ih.addCondition c

/-- Under each key there is one operator. -/
def OneOperator (cs : List FilterTagCondition) : Prop := ∀ c ∈ cs, ∀ d ∈ cs, c.key = d.key → c.operator = d.operator

/-- The operator of a key is that of its conditions. -/
theorem operator_eq {clause : FilterClause} {cs : List FilterTagCondition} (h : Groups clause cs) (hone : OneOperator cs)
    {c : FilterTagCondition} (hc : c ∈ cs) : operator c.key clause = c.operator := by
  have hmem : c ∈ ofKey c.key cs := List.mem_filter.mpr ⟨hc, decide_eq_true rfl⟩
  unfold operator
  rw [h.conditions_eq]
  cases hfirst : ofKey c.key cs with
  | nil =>
    rw [hfirst] at hmem
    cases hmem
  | cons d rest =>
    have hd : d ∈ ofKey c.key cs := hfirst ▸ List.mem_cons_self
    obtain ⟨hd, hkey⟩ := List.mem_filter.mp hd
    exact hone d hd c hc (of_decide_eq_true hkey)

theorem validateClause_iff {clause : FilterClause} {cs : List FilterTagCondition} (h : Groups clause cs) :
    validateClause clause = true ↔ OneOperator cs := by
  unfold validateClause
  simp only [List.all_eq_true, decide_eq_true_eq]
  constructor
  · intro hall c hc d hd hkey
    obtain ⟨e, he, hce⟩ := List.mem_map.mp (h.keys c hc)
    have hof := h.ofKey e he
    have hmemc : c ∈ e.2 := hof ▸ List.mem_filter.mpr ⟨hc, decide_eq_true hce.symm⟩
    have hmemd : d ∈ e.2 := hof ▸ List.mem_filter.mpr ⟨hd, decide_eq_true (hkey.symm.trans hce.symm)⟩
    exact Option.some.inj ((hall e he c hmemc).symm.trans (hall e he d hmemd))
  · intro hone e he c hc
    have hof := h.ofKey e he
    cases hfirst : e.2 with
    | nil =>
      rw [hfirst] at hc
      cases hc
    | cons d rest =>
      have hd : d ∈ ofKey e.1 cs := hof ▸ hfirst ▸ List.mem_cons_self
      obtain ⟨hc, hck⟩ := List.mem_filter.mp (hof ▸ hc)
      obtain ⟨hd, hdk⟩ := List.mem_filter.mp hd
      exact congrArg some (hone d hd c hc ((of_decide_eq_true hdk).trans (of_decide_eq_true hck).symm))

/-- A predicate is parseable if each comparison is extracted and there is one
operator under each key; its clause has the conditions extracted. -/
theorem parseable_iff (φ : Predicate) : (reduceNodesToClause (Predicate.nodes φ) []).2 = true ↔
    (∀ c ∈ φ.atoms, c.Extractable) ∧ OneOperator (φ.atoms.map Comparison.extracted) := by
  rw [reduceNodesToClause_predicate]
  by_cases hall : ∀ c ∈ φ.atoms, c.Extractable
  · rw [if_pos hall, constructClause, ← validateClause_iff (groups_groupBy _)]
    by_cases hvalid : validateClause (groupBy (φ.atoms.map Comparison.extracted)) = true
    · rw [if_pos hvalid]
      exact iff_of_true rfl ⟨hall, hvalid⟩
    · rw [if_neg hvalid]
      exact iff_of_false Bool.false_ne_true fun h => hvalid h.2
  · rw [if_neg hall]
    exact iff_of_false Bool.false_ne_true fun h => hall h.1

theorem groups_of_parseable {φ : Predicate} {clause : FilterClause}
    (h : reduceNodesToClause (Predicate.nodes φ) [] = (clause, true)) :
    Groups clause (φ.atoms.map Comparison.extracted) ∧ (∀ c ∈ φ.atoms, c.Extractable) ∧
      OneOperator (φ.atoms.map Comparison.extracted) := by
  obtain ⟨hall, hone⟩ := (parseable_iff φ).mp (congrArg Prod.snd h)
  rw [reduceNodesToClause_predicate, if_pos hall, constructClause, if_pos ((validateClause_iff (groups_groupBy _)).mpr hone)] at h
  obtain ⟨rfl, -⟩ := Prod.mk.inj h
  exact ⟨groups_groupBy _, hall, hone⟩

end Flux
end Chronograf
