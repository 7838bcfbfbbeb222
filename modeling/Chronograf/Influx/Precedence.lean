/-
# What AND between texts makes of them

An expression is alternatives, of conjuncts each. When texts are joined with
AND the last alternative of the first one and the first alternative of the
second one become one, as AND binds more than OR; the other alternatives stay.

Key definitions: `Expr.conjuncts`, `Expr.alternatives`, `joinAlternatives`.
Key theorem: `alternatives_extend_and`.
-/
import Chronograf.Influx.Followed

namespace Chronograf
namespace Influxql

/-- What is joined with AND. -/
def Expr.conjuncts : Expr → List Expr
  | binary .and l r => l.conjuncts ++ r.conjuncts
  | e => [e]

/-- What is joined with OR, as the conjuncts of each. -/
def Expr.alternatives : Expr → List (List Expr)
  | binary .or l r => l.alternatives ++ r.alternatives
  | e => [e.conjuncts]

/-- The last alternative of one expression goes on with the first of another one. -/
def joinAlternatives : List (List Expr) → List (List Expr) → List (List Expr)
  | [], B => B
  | [a], b :: B => (a ++ b) :: B
  | [a], [] => [a]
  | a :: a' :: A, B => a :: joinAlternatives (a' :: A) B

/-- An expression whose root is not AND is one conjunct. -/
theorem Expr.conjuncts_single {e : Expr} (h : ∀ l r, e ≠ binary .and l r) : e.conjuncts = [e] := by
  rw [conjuncts.eq_def]
  split
  · exact absurd rfl (h _ _)
  · rfl

/-- An expression whose root is not OR is one alternative. -/
theorem Expr.alternatives_single {e : Expr} (h : ∀ l r, e ≠ binary .or l r) : e.alternatives = [e.conjuncts] := by
  rw [alternatives.eq_def]
  split
  · exact absurd rfl (h _ _)
  · rfl

theorem joinAlternatives_append (A B : List (List Expr)) (a b : List Expr) :
    joinAlternatives (A ++ [a]) (b :: B) = A ++ (a ++ b) :: B := by
  induction A with
  | nil => rfl
  | cons c A ih =>
    cases A with
    | nil => rfl
    | cons d A =>
      rw [List.cons_append, List.cons_append, joinAlternatives, ← List.cons_append, ih]
      rfl

/-! ### What holds of an expression -/

section Holding

variable {Q : Expr → Prop}

theorem Expr.forall_conjuncts (hand : ∀ l r, Q (binary .and l r) ↔ Q l ∧ Q r) : ∀ e : Expr, (∀ c ∈ e.conjuncts, Q c) ↔ Q e
  | binary op l r => by
    by_cases hop : op = .and
    · rw [hop, hand, conjuncts, List.forall_mem_append, forall_conjuncts hand l, forall_conjuncts hand r]
    · rw [conjuncts_single fun l' r' heq => hop (by cases heq; rfl), List.forall_mem_singleton]
  | boolean _ | call _ _ | distinct _ | duration _ | integer _ | number _ | paren _ | regex _ | string _
  | varRef _ _ | wildcard _ => by rw [conjuncts_single fun l r heq => (by cases heq), List.forall_mem_singleton]

/-- What is true of an alternation where it is of one side. -/
theorem Expr.exists_alternatives (hand : ∀ l r, Q (binary .and l r) ↔ Q l ∧ Q r) (hor : ∀ l r, Q (binary .or l r) ↔ Q l ∨ Q r) :
    ∀ e : Expr, (∃ a ∈ e.alternatives, ∀ c ∈ a, Q c) ↔ Q e
  | binary op l r => by
    by_cases hop : op = .or
    · rw [hop, hor, alternatives, ← exists_alternatives hand hor l, ← exists_alternatives hand hor r]
      simp only [List.mem_append, or_and_right, exists_or]
    · rw [alternatives_single fun l' r' heq => hop (by cases heq; rfl)]
      simp only [List.mem_singleton, exists_eq_left, forall_conjuncts hand]
  | boolean _ | call _ _ | distinct _ | duration _ | integer _ | number _ | paren _ | regex _ | string _
  | varRef _ _ | wildcard _ => by
    rw [alternatives_single fun l r heq => (by cases heq)]
    simp only [List.mem_singleton, exists_eq_left, forall_conjuncts hand]

/-- What is true of an alternation where it is of both sides. -/
theorem Expr.forall_alternatives (hand : ∀ l r, Q (binary .and l r) ↔ Q l ∧ Q r) (hor : ∀ l r, Q (binary .or l r) ↔ Q l ∧ Q r) :
    ∀ e : Expr, (∀ a ∈ e.alternatives, ∀ c ∈ a, Q c) ↔ Q e
  | binary op l r => by
    by_cases hop : op = .or
    · rw [hop, hor, alternatives, List.forall_mem_append, forall_alternatives hand hor l, forall_alternatives hand hor r]
    · rw [alternatives_single fun l' r' heq => hop (by cases heq; rfl), List.forall_mem_singleton, forall_conjuncts hand]
  | boolean _ | call _ _ | distinct _ | duration _ | integer _ | number _ | paren _ | regex _ | string _
  | varRef _ _ | wildcard _ => by
    rw [alternatives_single fun l r heq => (by cases heq), List.forall_mem_singleton, forall_conjuncts hand]

variable {A B : List (List Expr)}

/-- One of the joined alternatives has what one of each side has. -/
theorem exists_join (hA : ∃ a ∈ A, ∀ c ∈ a, Q c) (hB : ∃ b ∈ B, ∀ c ∈ b, Q c) : ∃ a ∈ joinAlternatives A B, ∀ c ∈ a, Q c := by
  obtain ⟨a, ha, hQa⟩ := hA
  obtain ⟨b, hb, hQb⟩ := hB
  obtain ⟨G, g, rfl⟩ := (List.eq_nil_or_concat' A).resolve_left (List.ne_nil_of_mem ha)
  obtain ⟨b', B, rfl⟩ := List.exists_cons_of_ne_nil (List.ne_nil_of_mem hb)
  rw [joinAlternatives_append]
  rcases List.mem_append.mp ha with ha | ha
  · exact ⟨a, List.mem_append_left _ ha, hQa⟩
  · rcases List.mem_cons.mp hb with rfl | hb
    · refine ⟨g ++ b, by simp, List.forall_mem_append.mpr ⟨?_, hQb⟩⟩
      rw [← List.mem_singleton.mp ha]
      exact hQa
    · exact ⟨b, by simp [hb], hQb⟩

theorem forall_join (hA : A ≠ []) (hB : B ≠ []) : (∀ a ∈ joinAlternatives A B, ∀ c ∈ a, Q c) ↔
    (∀ a ∈ A, ∀ c ∈ a, Q c) ∧ ∀ b ∈ B, ∀ c ∈ b, Q c := by
  obtain ⟨G, g, rfl⟩ := (List.eq_nil_or_concat' A).resolve_left hA
  obtain ⟨b, B, rfl⟩ := List.exists_cons_of_ne_nil hB
  have hlast : (∀ a ∈ [g], ∀ c ∈ a, Q c) ↔ ∀ c ∈ g, Q c := List.forall_mem_singleton
  rw [joinAlternatives_append, List.forall_mem_append, List.forall_mem_append, hlast, List.forall_mem_cons, List.forall_mem_cons,
    List.forall_mem_append, and_assoc, and_assoc]

end Holding

/-! ### One more operator and operand -/

section Growth

variable {A B : List (List Expr)} {a b : List Expr} {e f rhs : Expr} {op : Operator} {ops : List (Operator × Expr)}

/-- The last conjunct takes what binds more than AND. -/
def growConjuncts (op : Operator) (rhs : Expr) : List Expr → List Expr
  | [] => []
  | [d] => [Expr.insert op rhs d]
  | d :: d' :: ds => d :: growConjuncts op rhs (d' :: ds)

def growLast (op : Operator) (rhs : Expr) : List (List Expr) → List (List Expr)
  | [] => []
  | [a] =>
    match op with
    | .or => [a, [rhs]]
    | .and => [a ++ [rhs]]
    | op => [growConjuncts op rhs a]
  | a :: a' :: A => a :: growLast op rhs (a' :: A)

theorem growConjuncts_append (hb : b ≠ []) : ∀ a : List Expr, growConjuncts op rhs (a ++ b) = a ++ growConjuncts op rhs b
  | [] => rfl
  | [d] => by
    cases b with
    | nil => exact absurd rfl hb
    | cons d' ds => rfl
  | d :: d' :: ds => by
    rw [List.cons_append, List.cons_append, growConjuncts, ← List.cons_append, growConjuncts_append hb (d' :: ds)]
    rfl

theorem growLast_append (hB : B ≠ []) : ∀ A : List (List Expr), growLast op rhs (A ++ B) = A ++ growLast op rhs B
  | [] => rfl
  | [a] => by
    cases B with
    | nil => exact absurd rfl hB
    | cons b B => rfl
  | a :: a' :: A => by
    rw [List.cons_append, List.cons_append, growLast, ← List.cons_append, growLast_append hB (a' :: A)]
    rfl

theorem Expr.operands_ne_nil : ∀ e : Expr, e.operands ≠ []
  | binary _ l _ => List.append_ne_nil_of_left_ne_nil l.operands_ne_nil _
  | boolean _ | call _ _ | distinct _ | duration _ | integer _ | number _ | paren _ | regex _ | string _
  | varRef _ _ | wildcard _ => List.cons_ne_nil _ _

/-- A single operand is no binary expression. -/
theorem Expr.ne_binary_of_single (h : e.operands = [e]) (op : Operator) (l r : Expr) : e ≠ binary op l r := by
  rintro rfl
  have hlength : (l.operands ++ r.operands).length = 1 := congrArg List.length h
  have hl := List.length_pos_iff.mpr l.operands_ne_nil
  have hr := List.length_pos_iff.mpr r.operands_ne_nil
  rw [List.length_append] at hlength
  omega

theorem Expr.conjuncts_ne_nil : ∀ e : Expr, e.conjuncts ≠ []
  | binary op l r => by
    cases op with
    | and => exact List.append_ne_nil_of_left_ne_nil l.conjuncts_ne_nil _
    | _ => exact List.cons_ne_nil _ _
  | boolean _ | call _ _ | distinct _ | duration _ | integer _ | number _ | paren _ | regex _ | string _
  | varRef _ _ | wildcard _ => List.cons_ne_nil _ _

theorem Expr.alternatives_ne_nil : ∀ e : Expr, e.alternatives ≠ []
  | binary op l r => by
    cases op with
    | or => exact List.append_ne_nil_of_left_ne_nil l.alternatives_ne_nil _
    | _ => exact List.cons_ne_nil _ _
  | boolean _ | call _ _ | distinct _ | duration _ | integer _ | number _ | paren _ | regex _ | string _
  | varRef _ _ | wildcard _ => List.cons_ne_nil _ _

/-- What is inserted is at the root, or the root is the one before. -/
theorem Expr.insert_root (op : Operator) (rhs e : Expr) :
    Expr.insert op rhs e = binary op e rhs ∨ ∃ op' l r, e = binary op' l r ∧ op'.precedence < op.precedence ∧
      Expr.insert op rhs e = binary op' l (Expr.insert op rhs r) := by
  cases e with
  | binary op' l r =>
    by_cases hop : op'.precedence ≥ op.precedence
    · exact .inl (if_pos hop)
    · exact .inr ⟨op', l, r, rfl, Nat.lt_of_not_ge hop, if_neg hop⟩
  | _ => exact .inl rfl

theorem Expr.conjuncts_insert_single (hop : op ≠ .and) (h : ∀ l r, e ≠ binary .and l r) (rhs : Expr) :
    (Expr.insert op rhs e).conjuncts = growConjuncts op rhs e.conjuncts := by
  rw [conjuncts_single h, growConjuncts]
  refine conjuncts_single fun l r heq => ?_
  rcases insert_root op rhs e with hroot | ⟨op', l', r', rfl, _, hroot⟩
  · rw [hroot] at heq
    cases heq
    exact hop rfl
  · rw [hroot] at heq
    cases heq
    exact h _ _ rfl

/-- What binds more than AND goes into the last conjunct. -/
theorem Expr.conjuncts_insert (hop : 2 < op.precedence) (rhs : Expr) : ∀ e : Expr,
    (Expr.insert op rhs e).conjuncts = growConjuncts op rhs e.conjuncts
  | binary op' l r => by
    have hne : op ≠ .and := by
      rintro rfl
      exact absurd hop (by decide)
    by_cases hand : op' = .and
    · subst hand
      have hinsert : Expr.insert op rhs (binary .and l r) = binary .and l (Expr.insert op rhs r) :=
        if_neg (Nat.not_le_of_lt hop)
      rw [hinsert, conjuncts, conjuncts, conjuncts_insert hop rhs r, growConjuncts_append r.conjuncts_ne_nil]
    · refine conjuncts_insert_single hne (fun l' r' heq => ?_) rhs
      cases heq
      exact hand rfl
  | boolean _ | call _ _ | distinct _ | duration _ | integer _ | number _ | paren _ | regex _ | string _
  | varRef _ _ | wildcard _ => by
    have hne : op ≠ .and := by
      rintro rfl
      exact absurd hop (by decide)
    refine conjuncts_insert_single hne (fun l r heq => ?_) rhs
    cases heq

theorem Expr.insert_or (rhs e : Expr) : Expr.insert .or rhs e = binary .or e rhs := by
  rcases insert_root .or rhs e with h | ⟨op', l, r, _, hlt, _⟩
  · exact h
  · cases op' <;> exact absurd hlt (by decide)

/-- Where the root is not OR, AND takes the whole expression on its left side. -/
theorem Expr.insert_and (h : ∀ l r, e ≠ binary .or l r) (rhs : Expr) : Expr.insert .and rhs e = binary .and e rhs := by
  rcases insert_root .and rhs e with hroot | ⟨op', l, r, rfl, hlt, _⟩
  · exact hroot
  · cases op' with
    | or => exact absurd rfl (h l r)
    | _ => exact absurd hlt (by decide)

/-- The root stays what it is where OR is not inserted. -/
theorem Expr.insert_ne_or (hop : op ≠ .or) (h : ∀ l r, e ≠ binary .or l r) (rhs l r : Expr) : Expr.insert op rhs e ≠ binary .or l r := by
  intro heq
  rcases insert_root op rhs e with hroot | ⟨op', l', r', rfl, _, hroot⟩
  · rw [hroot] at heq
    cases heq
    exact hop rfl
  · rw [hroot] at heq
    cases heq
    exact h _ _ rfl

theorem growLast_or (rhs : Expr) : ∀ {A : List (List Expr)}, A ≠ [] → growLast .or rhs A = A ++ [[rhs]]
  | [], h => absurd rfl h
  | [_], _ => rfl
  | a :: a' :: A, _ => by
    rw [growLast, growLast_or rhs (List.cons_ne_nil a' A)]
    rfl

theorem Expr.alternatives_of_single (h : e.operands = [e]) : e.alternatives = [[e]] := by
  rw [alternatives_single fun _ _ => ne_binary_of_single h _ _ _, conjuncts_single fun _ _ => ne_binary_of_single h _ _ _]

theorem Expr.alternatives_insert_single (hrhs : rhs.operands = [rhs]) (hop : op ≠ .or) (h : ∀ l r, e ≠ binary .or l r) :
    (Expr.insert op rhs e).alternatives = growLast op rhs e.alternatives := by
  rw [alternatives_single h, alternatives_single (insert_ne_or hop h rhs)]
  by_cases hand : op = .and
  · rw [hand, insert_and h, conjuncts, conjuncts_single fun _ _ => ne_binary_of_single hrhs _ _ _]
    rfl
  · have hprecedence : 2 < op.precedence := by
      cases op <;> first | exact absurd rfl hop | exact absurd rfl hand | decide
    rw [conjuncts_insert hprecedence rhs e, growLast.eq_def]
    cases op <;> first | exact absurd rfl hop | exact absurd rfl hand | rfl

/-- What is inserted goes into the last alternative, or is one itself. -/
theorem Expr.alternatives_insert (hrhs : rhs.operands = [rhs]) (op : Operator) : ∀ e : Expr,
    (Expr.insert op rhs e).alternatives = growLast op rhs e.alternatives
  | binary op' l r => by
    by_cases hor : op = .or
    · rw [hor, insert_or, alternatives, alternatives_of_single hrhs, growLast_or rhs (alternatives_ne_nil _)]
    · by_cases hroot : op' = .or
      · subst hroot
        have hinsert : Expr.insert op rhs (binary .or l r) = binary .or l (Expr.insert op rhs r) := by
          refine if_neg (Nat.not_le_of_lt ?_)
          cases op <;> first | exact absurd rfl hor | decide
        rw [hinsert, alternatives, alternatives, alternatives_insert hrhs op r, growLast_append r.alternatives_ne_nil]
      · refine alternatives_insert_single hrhs hor fun l' r' heq => ?_
        cases heq
        exact hroot rfl
  | boolean _ | call _ _ | distinct _ | duration _ | integer _ | number _ | paren _ | regex _ | string _
  | varRef _ _ | wildcard _ => by
    by_cases hor : op = .or
    · rw [hor, insert_or, alternatives, alternatives_of_single hrhs, growLast_or rhs (alternatives_ne_nil _)]
    · refine alternatives_insert_single hrhs hor fun l r heq => ?_
      cases heq

/-- The last alternative grows in the same way after the two have been joined. -/
theorem growLast_join (hA : A ≠ []) (hb : b ≠ []) (B : List (List Expr)) :
    growLast op rhs (joinAlternatives A (b :: B)) = joinAlternatives A (growLast op rhs (b :: B)) := by
  obtain ⟨G, g, rfl⟩ := (List.eq_nil_or_concat' A).resolve_left hA
  rw [joinAlternatives_append, growLast_append (List.cons_ne_nil _ _)]
  cases B with
  | nil =>
    cases op with
    | or => rw [growLast, growLast, joinAlternatives_append]
    | and => rw [growLast, growLast, joinAlternatives_append, List.append_assoc]
    | _ =>
      rw [growLast.eq_def, growLast.eq_def]
      dsimp only
      rw [joinAlternatives_append, growConjuncts_append hb]
  | cons b' B => rw [growLast, growLast, joinAlternatives_append]

theorem Expr.alternatives_cons : ∀ e : Expr, ∃ b B, e.alternatives = b :: B ∧ b ≠ []
  | binary op l r => by
    by_cases hop : op = .or
    · obtain ⟨b, B, hl, hb⟩ := l.alternatives_cons
      exact ⟨b, B ++ r.alternatives, by rw [hop, alternatives, hl, List.cons_append], hb⟩
    · refine ⟨_, [], alternatives_single fun l' r' heq => ?_, conjuncts_ne_nil _⟩
      cases heq
      exact hop rfl
  | boolean _ | call _ _ | distinct _ | duration _ | integer _ | number _ | paren _ | regex _ | string _
  | varRef _ _ | wildcard _ => ⟨_, [], rfl, conjuncts_ne_nil _⟩

/-- An expression that goes on with AND and another one. -/
theorem alternatives_extend_and {e₀ : Expr} (he₀ : e₀.operands = [e₀]) (hops : ∀ x ∈ ops, x.2.operands = [x.2]) (f : Expr) :
    (Grammar.extend f ((.and, e₀) :: ops)).alternatives =
      joinAlternatives f.alternatives (Grammar.extend e₀ ops).alternatives := by
  induction ops using List.reverseRecOn with
  | nil =>
    obtain ⟨G, g, hf⟩ := (List.eq_nil_or_concat' f.alternatives).resolve_left f.alternatives_ne_nil
    show (Expr.insert .and e₀ f).alternatives = joinAlternatives f.alternatives e₀.alternatives
    rw [Expr.alternatives_insert he₀, Expr.alternatives_of_single he₀, hf, growLast_append (List.cons_ne_nil _ _), joinAlternatives_append]
    rfl
  | append_singleton ops x ih =>
    obtain ⟨hops, hx⟩ := List.forall_mem_append.mp hops
    have hrhs : x.2.operands = [x.2] := hx x List.mem_cons_self
    have hlast : ∀ e ops, Grammar.extend e (ops ++ [x]) = Expr.insert x.1 x.2 (Grammar.extend e ops) := by
      intro e ops
      rw [Grammar.extend, List.foldl_append]
      rfl
    obtain ⟨b, B, hcons, hb⟩ := (Grammar.extend e₀ ops).alternatives_cons
    rw [← List.cons_append, hlast, hlast, Expr.alternatives_insert hrhs, Expr.alternatives_insert hrhs, ih hops, hcons,
      growLast_join f.alternatives_ne_nil hb]

end Growth

end Influxql
end Chronograf
