/-
# Texts with more after them

A token is the same whatever comes after it, as long as a space comes first; so
are the operands and the operators of an expression. An expression that is read
to its end is therefore read in the same way when a space and more follow, and
its operators go on with those that follow.

Key definitions: `Token.Ended`, `Grammar.Spaced`, `Grammar.extend`.
Key theorems: `scanIgnoreWhitespace_append`, `Grammar.parseExpr_append`, `Grammar.run_iterate_expr`.
-/
import Chronograf.Influx.Parser

namespace Chronograf
namespace Influxql

/-! ### Tokens -/

section Tokens

variable {cs rest : List Char} {t : Token} {ch : Char}

theorem takeWhile_append_stop {p : Char → Bool} (hstop : ¬ p ch) : ∀ (cs more : List Char),
    (cs ++ ch :: more).takeWhile p = cs.takeWhile p
  | [], more => List.takeWhile_cons_of_neg hstop
  | c :: cs, more => by
    rw [List.cons_append, List.takeWhile_cons, List.takeWhile_cons, takeWhile_append_stop hstop cs more]

theorem dropWhile_append_stop {p : Char → Bool} (hstop : ¬ p ch) : ∀ (cs more : List Char),
    (cs ++ ch :: more).dropWhile p = cs.dropWhile p ++ ch :: more
  | [], more => List.dropWhile_cons_of_neg hstop
  | c :: cs, more => by
    rw [List.cons_append, List.dropWhile_cons, List.dropWhile_cons, dropWhile_append_stop hstop cs more]
    split_ifs <;> rfl

/-- A token that the end of the text, or more white space, has no part in. -/
def Token.Ended : Token → Prop
  | .eof | .ws | .badString => False
  | _ => True

theorem scanString_append {q : Char} {token : String → Token} (more : List Char) (h : scanString q token cs = (t, rest))
    (ht : t.Ended) : scanString q token (cs ++ more) = (t, rest ++ more) := by
  rw [scanString] at h
  split at h
  · next s r hscan =>
    cases h
    rw [scanString, Quotes.scanString_append more hscan]
  · cases h
    exact absurd ht id

theorem scanIdent_append {keyword : Bool} (more : List Char) (ht : t.Ended) : ∀ {lit : List Char} {within : Bool} {cs : List Char},
    scanIdent keyword lit within cs = (t, rest) → scanIdent keyword lit within (cs ++ ' ' :: more) = (t, rest ++ ' ' :: more)
  | lit, within, [], h => by
    cases h
    rfl
  | lit, within, ch :: cs, h => by
    rw [List.cons_append, scanIdent]
    rw [scanIdent] at h
    split_ifs at h ⊢
    · exact scanIdent_append more ht h
    · cases h
      rfl
    · exact scanString_append _ h ht
    · exact scanIdent_append more ht h
    · cases h
      rfl

theorem scanNumber_append (sign cs more : List Char) : scanNumber sign (cs ++ ' ' :: more) =
    ((scanNumber sign cs).1, (scanNumber sign cs).2 ++ ' ' :: more) := by
  have hdigit : ¬ Char.isDigit ' ' := by decide
  have hunit : ¬ isUnitChar ' ' := by decide
  rw [scanNumber, scanNumber, takeWhile_append_stop hdigit, dropWhile_append_stop hdigit]
  cases cs.dropWhile Char.isDigit with
  | nil => rfl
  | cons ch rest =>
    rw [List.cons_append]
    dsimp only
    split_ifs
    · rw [takeWhile_append_stop hdigit, dropWhile_append_stop hdigit]
    · rw [← List.cons_append, takeWhile_append_stop hunit, dropWhile_append_stop hunit]
    · rfl

theorem signed_append (op : Operator) (ch : Char) (cs more : List Char) : signed op ch (cs ++ ' ' :: more) =
    ((signed op ch cs).1, (signed op ch cs).2 ++ ' ' :: more) := by
  rw [signed.eq_def op ch cs]
  split
  · next ch2 cs =>
    show (if ch2.isDigit then _ else _) = _
    split_ifs
    · exact scanNumber_append [ch] ('.' :: ch2 :: cs) more
    · rfl
  · next ch1 cs hpoint =>
    by_cases hch1 : ch1 = '.'
    · -- a point alone
      subst hch1
      cases cs with
      | nil => rfl
      | cons c cs => exact absurd rfl (hpoint c cs rfl)
    · have hno : ∀ (c : Char) (cs' : List Char), ch1 = '.' → cs ++ ' ' :: more = c :: cs' → False := fun _ _ h => absurd h hch1
      rw [List.cons_append, signed.eq_2 _ _ _ _ hno]
      split_ifs
      · exact scanNumber_append [ch] (ch1 :: cs) more
      · rfl
  · rfl

theorem scanPunctuation_append (ch : Char) (cs more : List Char) : scanPunctuation ch (cs ++ ' ' :: more) =
    ((scanPunctuation ch cs).1, (scanPunctuation ch cs).2 ++ ' ' :: more) := by
  cases cs with
  | nil =>
    rw [List.nil_append, scanPunctuation.eq_def ch (' ' :: more), scanPunctuation.eq_def ch []]
    split <;> first | rfl | simp_all
  | cons c cs =>
    rw [List.cons_append, scanPunctuation.eq_def ch (c :: (cs ++ _)), scanPunctuation.eq_def ch (c :: cs)]
    split <;> first | rfl | simp_all

theorem scanWhitespace_append (more : List Char) (hrest : rest ≠ []) : ∀ {cs : List Char},
    scanWhitespace cs = (t, rest) → scanWhitespace (cs ++ more) = (t, rest ++ more)
  | [], h => by
    cases h
    exact absurd rfl hrest
  | ch :: cs, h => by
    rw [List.cons_append, scanWhitespace]
    rw [scanWhitespace] at h
    split_ifs at h ⊢
    · cases h
      rfl
    · exact scanWhitespace_append more hrest h
    · cases h
      rfl

theorem fst_scanWhitespace : ∀ cs : List Char, (scanWhitespace cs).1 = .ws
  | [] => rfl
  | ch :: cs => by
    rw [scanWhitespace]
    split_ifs
    · rfl
    · exact fst_scanWhitespace cs
    · rfl

theorem scan_append (more : List Char) (h : scan cs = (t, rest)) (ht : t.Ended) : scan (cs ++ ' ' :: more) = (t, rest ++ ' ' :: more) := by
  have hpair : ∀ {r : Token × List Char}, r = (t, rest) → (r.1, r.2 ++ ' ' :: more) = (t, rest ++ ' ' :: more) := by
    rintro _ rfl
    rfl
  cases cs with
  | nil =>
    cases h
    exact absurd ht id
  | cons ch cs =>
    rw [List.cons_append, scan.eq_def]
    rw [scan.eq_def] at h
    dsimp only at h ⊢
    split_ifs at h ⊢
    · have hws := fst_scanWhitespace cs
      rw [h] at hws
      rw [show t = .ws from hws] at ht
      exact absurd ht id
    · exact scanIdent_append more ht h
    · exact (scanNumber_append [] (ch :: cs) more).trans (hpair h)
    · cases h
      exact absurd ht id
    · exact scanString_append _ h ht
    · cases cs with
      | nil =>
        cases h
        rfl
      | cons ch1 cs =>
        dsimp only [List.cons_append] at h ⊢
        split_ifs at h ⊢
        · exact (scanNumber_append [] (ch :: ch1 :: cs) more).trans (hpair h)
        · cases h
          rfl
    · cases hident : scanIdent false [] false cs with
      | mk t' rest' =>
        rw [hident] at h
        have hended : t'.Ended := by
          cases t' <;> first | trivial | (cases h; exact ht)
        rw [scanIdent_append more hended hident]
        cases t' <;> (cases h; rfl)
    · exact (signed_append _ _ _ _).trans (hpair h)
    · exact (signed_append _ _ _ _).trans (hpair h)
    · exact (scanPunctuation_append _ _ _).trans (hpair h)

/-! White space, and nothing else, is read as such. -/

theorem lookup_ne_ws (lit : List Char) : lookup lit ≠ .ws := by
  have hall : ∀ k ∈ keywords, k.2 ≠ .ws := by decide
  rw [lookup]
  split
  · next k hfind => exact hall k (List.mem_of_find?_eq_some hfind)
  · nofun

theorem scanString_ne_ws (q : Char) (token : String → Token) (htoken : ∀ s, token s ≠ .ws) (cs : List Char) :
    (scanString q token cs).1 ≠ .ws := by
  rw [scanString]
  split
  · exact htoken _
  · simp

theorem scanIdent_ne_ws {keyword : Bool} : ∀ (lit : List Char) (within : Bool) (cs : List Char),
    (scanIdent keyword lit within cs).1 ≠ .ws
  | lit, within, [] => by
    rw [scanIdent, bareIdent]
    split_ifs
    · exact lookup_ne_ws lit
    · simp
  | lit, within, ch :: cs => by
    have hbare : bareIdent keyword lit ≠ .ws := by
      rw [bareIdent]
      split_ifs
      · exact lookup_ne_ws lit
      · simp
    rw [scanIdent]
    split_ifs
    · exact scanIdent_ne_ws lit false cs
    · exact hbare
    · exact scanString_ne_ws '"' .ident (fun _ => by simp) cs
    · exact scanIdent_ne_ws (lit ++ [ch]) true cs
    · exact hbare

theorem scanNumber_ne_ws (sign cs : List Char) : (scanNumber sign cs).1 ≠ .ws := by
  rw [scanNumber]
  split
  · simp
  · split_ifs <;> simp

theorem signed_ne_ws (op : Operator) (ch : Char) (cs : List Char) : (signed op ch cs).1 ≠ .ws := by
  rw [signed.eq_def]
  split
  · split_ifs
    · exact scanNumber_ne_ws _ _
    · simp
  · split_ifs
    · exact scanNumber_ne_ws _ _
    · simp
  · simp

theorem scan_ne_ws (hch : ¬ isWhitespace ch) : (scan (ch :: cs)).1 ≠ .ws := by
  rw [scan.eq_def]
  dsimp only
  rw [if_neg hch]
  split_ifs
  · exact scanIdent_ne_ws _ _ _
  · exact scanNumber_ne_ws _ _
  · simp
  · exact scanString_ne_ws '\'' .string (fun _ => by simp) _
  · split
    · split_ifs
      · exact scanNumber_ne_ws _ _
      · simp
    · simp
  · have hident : (scanIdent false [] false cs).1 ≠ .ws := scanIdent_ne_ws [] false cs
    split
    · simp
    · exact hident
  · exact signed_ne_ws _ _ _
  · exact signed_ne_ws _ _ _
  · rw [scanPunctuation.eq_def]
    split <;> simp

theorem scan_ws_append {mid : List Char} (more : List Char) (h : scan cs = (.ws, mid)) (hmid : mid ≠ []) :
    scan (cs ++ more) = (.ws, mid ++ more) := by
  cases cs with
  | nil => cases h
  | cons ch cs =>
    by_cases hch : isWhitespace ch
    · have hscan : ∀ cs, scan (ch :: cs) = scanWhitespace cs := by
        intro cs
        rw [scan.eq_def]
        exact if_pos hch
      rw [hscan] at h
      rw [List.cons_append, hscan, scanWhitespace_append more hmid h]
    · have hne : (scan (ch :: cs)).1 ≠ .ws := scan_ne_ws hch
      rw [h] at hne
      exact absurd rfl hne

theorem scanIgnoreWhitespace_append (more : List Char) (h : scanIgnoreWhitespace cs = (t, rest)) (ht : t.Ended) :
    scanIgnoreWhitespace (cs ++ ' ' :: more) = (t, rest ++ ' ' :: more) := by
  rw [scanIgnoreWhitespace] at h
  split at h
  · next mid hws =>
    have hmid : mid ≠ [] := by
      rintro rfl
      cases h
      exact ht
    rw [scanIgnoreWhitespace, scan_ws_append _ hws hmid]
    exact scan_append more h ht
  · next hne =>
    rw [scanIgnoreWhitespace, scan_append more h ht]
    cases t <;> first | rfl | exact absurd ht id

/-- One more space before a token. -/
theorem scanIgnoreWhitespace_space_cons (h : scanIgnoreWhitespace cs = (t, rest)) (ht : t.Ended) :
    scanIgnoreWhitespace (' ' :: cs) = (t, rest) := by
  cases cs with
  | nil =>
    cases h
    exact absurd ht id
  | cons ch cs =>
    have hscan : scan (' ' :: ch :: cs) = scanWhitespace (ch :: cs) := rfl
    rw [scanIgnoreWhitespace, hscan, scanWhitespace]
    split_ifs with heof hspace
    · subst heof
      cases h
      exact absurd ht id
    · have hws : scan (ch :: cs) = scanWhitespace cs := by
        rw [scan.eq_def]
        exact if_pos hspace
      rw [scanIgnoreWhitespace, hws] at h
      exact h
    · rw [scanIgnoreWhitespace] at h
      split at h
      · next hws => exact absurd (congrArg Prod.fst hws) (scan_ne_ws hspace)
      · exact h

end Tokens

/-! ### Operands -/

/-- The rest of the grammar is as indifferent to white space as what is parsed here:
an operand is no binary expression, it may have a space before it, and what comes
after a space does not change it. -/
structure Grammar.Spaced (g : Grammar) : Prop where
  operand_append : ∀ {cs e rest}, g.operand.run cs = some (e, rest) →
    ∀ more, g.operand.run (cs ++ ' ' :: more) = some (e, rest ++ ' ' :: more)
  operand_space : ∀ {cs r}, g.operand.run cs = some r → g.operand.run (' ' :: cs) = some r
  operand_single : g.operand.Yields fun e => e.operands = [e]
  regex_append : ∀ {cs e rest}, g.regex.run cs = some (e, rest) →
    ∀ more, g.regex.run (cs ++ ' ' :: more) = some (e, rest ++ ' ' :: more)
  regex_single : g.regex.Yields fun e => e.operands = [e]

namespace Grammar

section Operands

variable {g : Grammar} {cs mid rest : List Char} {e e' : Expr} {t : Token} {lit : String} {op : Operator}

/-- A token that makes more of a name before it. -/
def attaches : Token → Bool
  | .lparen | .dot | .doubleColon => true
  | _ => false

theorem run_parseVarRef (h : scanIgnoreWhitespace cs = (t, mid)) :
    (parseVarRef lit).run cs = if attaches (scan mid).1 then none else some (.varRef lit .unknown, mid) := by
  have hahead : (Parser.total scan length_scan_le).ahead.run mid = some ((scan mid).1, mid) := rfl
  rw [parseVarRef, run_scanToken_bind, h, Parser.run_bind_of_some hahead]
  cases (scan mid).1 <;> rfl

/-- What may come after an operand: nothing, or an operator. -/
def Follows (rest : List Char) : Prop := rest = [] ∨ ∃ op, (scanIgnoreWhitespace rest).1 = .op op

/-- Nothing is attached to a name by what comes after it. -/
theorem Follows.not_attaches (h : Follows rest) (more : List Char) : ¬ attaches (scan (rest ++ ' ' :: more)).1 := by
  rcases h with rfl | ⟨op, hop⟩
  · have hws : (scan ([] ++ ' ' :: more)).1 = .ws := fst_scanWhitespace more
    rw [hws]
    exact Bool.false_ne_true
  · cases rest with
    | nil => cases hop
    | cons ch rest =>
      by_cases hch : isWhitespace ch
      · have hws : (scan (ch :: (rest ++ ' ' :: more))).1 = .ws := by
          rw [scan.eq_def]
          dsimp only
          rw [if_pos hch]
          exact fst_scanWhitespace _
        rw [List.cons_append, hws]
        exact Bool.false_ne_true
      · have hscan : scan (ch :: rest) = (.op op, (scan (ch :: rest)).2) := by
          rw [scanIgnoreWhitespace] at hop
          split at hop
          · next hws => exact absurd (congrArg Prod.fst hws) (scan_ne_ws hch)
          · rw [← hop]
        rw [scan_append more hscan trivial]
        exact Bool.false_ne_true

/-- An operand that is read is a name, a string, a boolean, or one of the parameter,
which then reads every text that begins with such a token. -/
theorem parseUnaryExpr_cases (h : g.parseUnaryExpr.run cs = some (e, rest)) :
    (∃ lit, scanIgnoreWhitespace cs = (.ident lit, rest) ∧ ¬ attaches (scan rest).1 ∧ e = .varRef lit .unknown) ∨
    (∃ lit, scanIgnoreWhitespace cs = (.string lit, rest) ∧ e = .string lit) ∨
    (∃ b, scanIgnoreWhitespace cs = (.boolean b, rest) ∧ e = .boolean b) ∨
    ∃ t mid, scanIgnoreWhitespace cs = (t, mid) ∧ t.Ended ∧ g.operand.run cs = some (e, rest) ∧
      ∀ cs' mid', scanIgnoreWhitespace cs' = (t, mid') → (attaches (scan mid).1 → attaches (scan mid').1) →
        g.parseUnaryExpr.run cs' = g.operand.run cs' := by
  obtain ⟨t, mid, hscan⟩ : ∃ t mid, scanIgnoreWhitespace cs = (t, mid) := ⟨_, _, rfl⟩
  have hother : t.Ended → (∀ cs', (scanIgnoreWhitespace cs').1 = t → g.parseUnaryExpr.run cs' = g.operand.run cs') →
      ∃ t mid, scanIgnoreWhitespace cs = (t, mid) ∧ t.Ended ∧ g.operand.run cs = some (e, rest) ∧
        ∀ cs' mid', scanIgnoreWhitespace cs' = (t, mid') → (attaches (scan mid).1 → attaches (scan mid').1) →
          g.parseUnaryExpr.run cs' = g.operand.run cs' := by
    intro ht hrun
    rw [hrun cs (congrArg Prod.fst hscan)] at h
    exact ⟨t, mid, hscan, ht, h, fun cs' mid' hcs' _ => hrun cs' (congrArg Prod.fst hcs')⟩
  have hrun := h
  rw [parseUnaryExpr, run_ahead_bind, hscan] at hrun
  cases t with
  | ident lit =>
    have hor : ((parseVarRef lit).run cs).or (g.operand.run cs) = some (e, rest) := hrun
    rw [run_parseVarRef hscan] at hor
    split_ifs at hor with hattaches
    · refine .inr (.inr (.inr ⟨_, mid, hscan, trivial, hor, fun cs' mid' hcs' hsame => ?_⟩))
      rw [parseUnaryExpr, run_ahead_bind, hcs']
      show ((parseVarRef lit).run cs').or (g.operand.run cs') = _
      rw [run_parseVarRef hcs', if_pos (hsame hattaches), Option.none_or]
    · cases hor
      exact .inl ⟨lit, hscan, hattaches, rfl⟩
  | string lit =>
    dsimp only at hrun
    rw [run_scanToken_bind, hscan] at hrun
    cases hrun
    exact .inr (.inl ⟨lit, hscan, rfl⟩)
  | boolean b =>
    dsimp only at hrun
    rw [run_scanToken_bind, hscan] at hrun
    cases hrun
    exact .inr (.inr (.inl ⟨b, hscan, rfl⟩))
  | lparen | number | integer | durationVal | boundParam =>
    refine .inr (.inr (.inr (hother trivial fun cs' hcs' => ?_)))
    rw [parseUnaryExpr, run_ahead_bind, hcs']
  | op op =>
    cases op with
    | mul =>
      refine .inr (.inr (.inr (hother trivial fun cs' hcs' => ?_)))
      rw [parseUnaryExpr, run_ahead_bind, hcs']
    | _ => cases hrun
  | word k =>
    by_cases hk : k = .distinct
    · refine .inr (.inr (.inr (hother trivial fun cs' hcs' => ?_)))
      rw [parseUnaryExpr, run_ahead_bind, hcs', hk]
    · cases k <;> first | exact absurd rfl hk | cases hrun
  | _ => cases hrun

theorem parseUnaryExpr_of_name (h : scanIgnoreWhitespace cs = (.ident lit, mid)) (hnext : ¬ attaches (scan mid).1) :
    g.parseUnaryExpr.run cs = some (.varRef lit .unknown, mid) := by
  rw [parseUnaryExpr, run_ahead_bind, h]
  exact Parser.run_orElse_of_some (by rw [run_parseVarRef h, if_neg hnext])

theorem attaches_append (more : List Char) (h : attaches (scan mid).1) : attaches (scan (mid ++ ' ' :: more)).1 := by
  obtain ⟨t, after, hmid⟩ : ∃ t after, scan mid = (t, after) := ⟨_, _, rfl⟩
  rw [hmid] at h
  have hended : t.Ended := by
    cases t <;> trivial
  rw [scan_append more hmid hended]
  exact h

theorem parseUnaryExpr_append (hg : g.Spaced) (h : g.parseUnaryExpr.run cs = some (e, rest)) (hrest : Follows rest)
    (more : List Char) : g.parseUnaryExpr.run (cs ++ ' ' :: more) = some (e, rest ++ ' ' :: more) := by
  rcases parseUnaryExpr_cases h with ⟨lit, hscan, hnext, rfl⟩ | ⟨lit, hscan, rfl⟩ | ⟨b, hscan, rfl⟩ | ⟨t, mid, hscan, ht, hrun, hother⟩
  · exact parseUnaryExpr_of_name (scanIgnoreWhitespace_append more hscan trivial) (hrest.not_attaches more)
  · exact parseUnaryExpr_of_string (scanIgnoreWhitespace_append more hscan trivial)
  · exact parseUnaryExpr_of_boolean (scanIgnoreWhitespace_append more hscan trivial)
  · rw [hother _ _ (scanIgnoreWhitespace_append more hscan ht) (attaches_append more)]
    exact hg.operand_append hrun more

theorem parseUnaryExpr_space (hg : g.Spaced) (h : g.parseUnaryExpr.run cs = some (e, rest)) :
    g.parseUnaryExpr.run (' ' :: cs) = some (e, rest) := by
  rcases parseUnaryExpr_cases h with ⟨lit, hscan, hnext, rfl⟩ | ⟨lit, hscan, rfl⟩ | ⟨b, hscan, rfl⟩ | ⟨t, mid, hscan, ht, hrun, hother⟩
  · exact parseUnaryExpr_of_name (scanIgnoreWhitespace_space_cons hscan trivial) hnext
  · exact parseUnaryExpr_of_string (scanIgnoreWhitespace_space_cons hscan trivial)
  · exact parseUnaryExpr_of_boolean (scanIgnoreWhitespace_space_cons hscan trivial)
  · rw [hother _ _ (scanIgnoreWhitespace_space_cons hscan ht) id]
    exact hg.operand_space hrun

theorem parseUnaryExpr_single (hg : g.Spaced) : g.parseUnaryExpr.Yields fun e => e.operands = [e] := by
  intro cs e rest h
  rcases parseUnaryExpr_cases h with ⟨lit, _, _, rfl⟩ | ⟨lit, _, rfl⟩ | ⟨b, _, rfl⟩ | ⟨t, mid, _, _, hrun, _⟩
  · rfl
  · rfl
  · rfl
  · exact hg.operand_single hrun

theorem parseRhs_append (hg : g.Spaced) (h : (g.parseRhs op).run cs = some (e, rest)) (hrest : Follows rest)
    (more : List Char) : (g.parseRhs op).run (cs ++ ' ' :: more) = some (e, rest ++ ' ' :: more) := by
  rw [parseRhs] at h ⊢
  split_ifs at h ⊢
  · exact hg.regex_append h more
  · exact parseUnaryExpr_append hg h hrest more

theorem parseRhs_single (hg : g.Spaced) (op : Operator) : (g.parseRhs op).Yields fun e => e.operands = [e] := by
  rw [parseRhs]
  split_ifs
  · exact hg.regex_single
  · exact parseUnaryExpr_single hg

end Operands

/-! ### Operators -/

section Operators

variable {g : Grammar} {cs mid rest : List Char} {e e' f rhs : Expr} {ops : List (Operator × Expr)} {op : Operator}

/-- An expression with more operators and operands. -/
def extend (e : Expr) (ops : List (Operator × Expr)) : Expr := ops.foldl (fun e x => Expr.insert x.1 x.2 e) e

/-- A turn of the loop that goes on: an operator and an operand. -/
theorem parseOperator_inl (h : (g.parseOperator e).run cs = some (.inl e', rest)) : ∃ op mid rhs,
    scanIgnoreWhitespace cs = (.op op, mid) ∧ (g.parseRhs op).run mid = some (rhs, rest) ∧ e' = Expr.insert op rhs e := by
  obtain ⟨t, mid, hscan⟩ : ∃ t mid, scanIgnoreWhitespace cs = (t, mid) := ⟨_, _, rfl⟩
  rw [parseOperator, run_ahead_bind, hscan] at h
  cases t with
  | op op =>
    dsimp only at h
    rw [run_scanToken_bind, hscan] at h
    obtain ⟨rhs, after, hrhs, hpure⟩ := Parser.run_bind_eq_some.mp h
    cases hpure
    exact ⟨op, mid, rhs, hscan, hrhs, rfl⟩
  | _ => cases h

theorem parseOperator_inr (h : (g.parseOperator e).run cs = some (.inr e', rest)) : e' = e ∧ rest = cs := by
  obtain ⟨t, mid, hscan⟩ : ∃ t mid, scanIgnoreWhitespace cs = (t, mid) := ⟨_, _, rfl⟩
  rw [parseOperator, run_ahead_bind, hscan] at h
  cases t with
  | op op =>
    dsimp only at h
    rw [run_scanToken_bind, hscan] at h
    obtain ⟨rhs, after, hrhs, hpure⟩ := Parser.run_bind_eq_some.mp h
    cases hpure
  | _ =>
    cases h
    exact ⟨rfl, rfl⟩

theorem parseOperator_of_rhs (e : Expr) (hscan : scanIgnoreWhitespace cs = (.op op, mid)) (hrhs : (g.parseRhs op).run mid = some (rhs, rest)) :
    (g.parseOperator e).run cs = some (.inl (Expr.insert op rhs e), rest) := by
  rw [parseOperator, run_ahead_bind, hscan]
  dsimp only
  rw [run_scanToken_bind, hscan, Parser.run_bind_of_some hrhs]
  rfl

/-- Where a loop reads to the end, an operator comes next, or nothing. -/
theorem follows_of_iterate (h : (Parser.iterate g.parseOperator e).run cs = some (e', [])) : Follows cs := by
  cases hturn : (g.parseOperator e).run cs with
  | none =>
    rw [Parser.run_iterate_of_none hturn] at h
    cases h
  | some r =>
    obtain ⟨t, mid⟩ := r
    cases t with
    | inl e₁ =>
      obtain ⟨op, after, rhs, hscan, _, _⟩ := parseOperator_inl hturn
      exact .inr ⟨op, congrArg Prod.fst hscan⟩
    | inr e₁ =>
      obtain ⟨rfl, rfl⟩ := parseOperator_inr hturn
      rw [Parser.run_iterate_of_inr hturn] at h
      cases h
      exact .inl rfl

/-- What a loop reads to the end of a text are operators and operands, which it
reads whatever the expression before them and, after a space, behind them. -/
theorem run_iterate_append (hg : g.Spaced) (h : (Parser.iterate g.parseOperator e).run cs = some (e', [])) :
    ∃ ops, e' = extend e ops ∧ (∀ x ∈ ops, x.2.operands = [x.2]) ∧ ∀ f more,
      (Parser.iterate g.parseOperator f).run (cs ++ ' ' :: more) = (Parser.iterate g.parseOperator (extend f ops)).run (' ' :: more) := by
  induction hn : cs.length using Nat.strongRecOn generalizing cs e with
  | ind n ih =>
    subst hn
    cases hturn : (g.parseOperator e).run cs with
    | none =>
      rw [Parser.run_iterate_of_none hturn] at h
      cases h
    | some r =>
      obtain ⟨t, after⟩ := r
      cases t with
      | inl e₁ =>
        obtain ⟨op, mid, rhs, hscan, hrhs, rfl⟩ := parseOperator_inl hturn
        rw [Parser.run_iterate_of_inl parseOperator_takes hturn] at h
        obtain ⟨ops, rfl, hsingle, hmore⟩ := ih after.length (parseOperator_takes hturn) h rfl
        refine ⟨(op, rhs) :: ops, rfl, List.forall_mem_cons.mpr ⟨parseRhs_single hg op hrhs, hsingle⟩, fun f more => ?_⟩
        have hfirst := parseOperator_of_rhs f (scanIgnoreWhitespace_append more hscan trivial)
          (parseRhs_append hg hrhs (follows_of_iterate h) more)
        rw [Parser.run_iterate_of_inl parseOperator_takes hfirst]
        exact hmore _ more
      | inr e₁ =>
        obtain ⟨rfl, rfl⟩ := parseOperator_inr hturn
        rw [Parser.run_iterate_of_inr hturn] at h
        cases h
        exact ⟨[], rfl, List.forall_mem_nil _, fun _ _ => rfl⟩

/-- An expression that is read to its end is operands with operators between them. -/
theorem parseExpr_parts (h : g.parseExpr.run cs = some (e, [])) : ∃ e₀ mid,
    g.parseUnaryExpr.run cs = some (e₀, mid) ∧ (Parser.iterate g.parseOperator e₀).run mid = some (e, []) :=
  Parser.run_bind_eq_some.mp h

theorem parseExpr_append (hg : g.Spaced) (h : g.parseExpr.run cs = some (e, [])) (more : List Char) :
    g.parseExpr.run (cs ++ ' ' :: more) = (Parser.iterate g.parseOperator e).run (' ' :: more) := by
  obtain ⟨e₀, mid, hfirst, hrest⟩ := parseExpr_parts h
  obtain ⟨ops, rfl, _, hmore⟩ := run_iterate_append hg hrest
  rw [parseExpr, Parser.run_bind_of_some (parseUnaryExpr_append hg hfirst (follows_of_iterate hrest) more)]
  exact hmore e₀ more

/-- After an operator the expression is read operand by operand: its operators go on
with the expression before it. -/
theorem run_iterate_expr (hg : g.Spaced) (h : g.parseExpr.run cs = some (e, [])) : ∃ e₀ ops,
    e = extend e₀ ops ∧ e₀.operands = [e₀] ∧ (∀ x ∈ ops, x.2.operands = [x.2]) ∧
    ∀ f op before more, op ≠ .eqRegex ∧ op ≠ .neqRegex → scanIgnoreWhitespace before = (.op op, ' ' :: (cs ++ ' ' :: more)) →
      (Parser.iterate g.parseOperator f).run before =
        (Parser.iterate g.parseOperator (extend f ((op, e₀) :: ops))).run (' ' :: more) := by
  obtain ⟨e₀, mid, hfirst, hrest⟩ := parseExpr_parts h
  obtain ⟨ops, rfl, hsingle, hmore⟩ := run_iterate_append hg hrest
  refine ⟨e₀, ops, rfl, parseUnaryExpr_single hg hfirst, hsingle, fun f op before more hregex hscan => ?_⟩
  have hrhs := parseUnaryExpr_space hg (parseUnaryExpr_append hg hfirst (follows_of_iterate hrest) more)
  rw [Parser.run_iterate_of_inl parseOperator_takes (parseOperator_of_op hscan hregex hrhs)]
  exact hmore _ more

end Operators

end Grammar

end Influxql
end Chronograf
