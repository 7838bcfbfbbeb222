/-
# The query for filtered annotations

`AnnotationStore.All` pastes the texts of the filters after the conditions on
deletion and time, with AND between them. A server whose parser reads the text
of each filter as the filter reads one condition, whose alternatives are those
of the filters, the last of each joined with the first of the next.

Key definitions: `Expr.text`, `Grammar.Numbers`, `inRangeConjuncts`, `pieces`.
Key theorem: `parseQuery_allAnnotations`.
-/
import Chronograf.Influx.Annotations
import Chronograf.Influx.Commands
import Chronograf.Influx.Precedence

namespace Chronograf
namespace Influxql

/-- The text of an expression, given that of the expressions that are not binary. -/
def Expr.text (single : Expr → String) : Expr → String
  | binary op l r => l.text single ++ " " ++ op.string ++ " " ++ r.text single
  | e => single e

/-- A time that a server can represent. -/
def Representable (i : ℤ) : Prop := -2 ^ 63 < i ∧ i < 2 ^ 63

/-- Operands that are whole numbers, and those that are nanoseconds. -/
structure Grammar.Numbers (g : Grammar) : Prop where
  integer : ∀ {i : ℤ}, Representable i → g.operand.run (' ' :: (Int.repr i).toList) = some (.integer i, [])
  nanoseconds : ∀ {i : ℤ}, Representable i → g.operand.run (' ' :: (Int.repr i ++ "ns").toList) = some (.duration i, [])

/-! ### Numbers -/

section Numbers

variable {g : Grammar} {cs rest : List Char} {i : ℤ}

theorem isDigit_not_letter {c : Char} (hc : c.isDigit) : ¬ isLetter c := by
  simp only [Char.isDigit, isLetter, Bool.and_eq_true, Bool.or_eq_true, decide_eq_true_eq, Char.le_def, UInt32.le_iff_toNat_le] at hc ⊢
  simp only [UInt32.reduceToNat, Char.reduceVal] at hc ⊢
  omega

theorem scan_digit {c : Char} (hc : c.isDigit) (cs : List Char) : scan (c :: cs) = scanNumber [] (c :: cs) := by
  have hspace : ¬ isWhitespace c := by
    intro h
    simp only [isWhitespace, Bool.or_eq_true, decide_eq_true_eq] at h
    rcases h with ((rfl | rfl) | rfl) | rfl <;> exact absurd hc (by decide)
  have hident : ¬ (isLetter c || c = '_' || c = '"') := by
    intro h
    simp only [Bool.or_eq_true, decide_eq_true_eq] at h
    rcases h with (h | rfl) | rfl
    · exact isDigit_not_letter hc h
    · exact absurd hc (by decide)
    · exact absurd hc (by decide)
  rw [scan.eq_def]
  dsimp only
  rw [if_neg hspace, if_neg hident, if_pos hc]

theorem scan_minus_digit {c : Char} (hc : c.isDigit) (cs : List Char) : scan ('-' :: c :: cs) = scanNumber ['-'] (c :: cs) := by
  have hscan : scan ('-' :: c :: cs) = signed .sub '-' (c :: cs) := rfl
  have hpoint : ∀ (d : Char) (cs' : List Char), c = '.' → cs = d :: cs' → False := by
    rintro d cs' rfl
    exact absurd hc (by decide)
  rw [hscan, signed.eq_2 _ _ _ _ hpoint, if_pos hc]

/-- The digits of a natural number. -/
theorem natRepr_digits (n : ℕ) : ∃ c ds, (Nat.repr n).toList = c :: ds ∧ c.isDigit ∧ (∀ d ∈ ds, d.isDigit) ∧
    Nat.ofDigitChars 10 (c :: ds) 0 = n := by
  have hdigits := @Float64.isDigit_of_mem_toDigits n
  have hvalue : Nat.ofDigitChars 10 (Nat.toDigits 10 n) 0 = n := Nat.ofDigitChars_ten_toDigits
  rw [Nat.toList_repr]
  cases hn : Nat.toDigits 10 n with
  | nil => exact absurd hn Nat.toDigits_ne_nil
  | cons c ds =>
    rw [hn] at hdigits hvalue
    obtain ⟨hc, hds⟩ := List.forall_mem_cons.mp hdigits
    exact ⟨c, ds, rfl, hc, hds, hvalue⟩

/-- An integer is read as its sign and its digits. -/
theorem scan_repr (i : ℤ) : ∃ sign ds, sign ++ ds = (Int.repr i).toList ∧ (∀ d ∈ ds, d.isDigit) ∧
    ∀ rest, scan ((Int.repr i).toList ++ rest) = scanNumber sign (ds ++ rest) := by
  rw [Int.repr_eq_if]
  split_ifs
  · obtain ⟨c, ds, hn, hc, hds, _⟩ := natRepr_digits i.toNat
    rw [hn]
    exact ⟨[], c :: ds, rfl, List.forall_mem_cons.mpr ⟨hc, hds⟩, fun rest => scan_digit hc _⟩
  · obtain ⟨c, ds, hn, hc, hds, _⟩ := natRepr_digits (-i).toNat
    have htext : ("-" ++ (-i).toNat.repr).toList = '-' :: c :: ds := by
      rw [String.toList_append, hn]
      rfl
    rw [htext]
    exact ⟨['-'], c :: ds, rfl, List.forall_mem_cons.mpr ⟨hc, hds⟩, fun rest => scan_minus_digit hc _⟩

theorem takeWhile_digits_unit {ds : List Char} (hds : ∀ d ∈ ds, d.isDigit) (unit : List Char) (hunit : ∀ c ∈ unit.head?, ¬ c.isDigit) :
    (ds ++ unit).takeWhile Char.isDigit = ds ∧ (ds ++ unit).dropWhile Char.isDigit = unit := by
  rw [List.takeWhile_append_of_pos hds, List.dropWhile_append_of_pos hds]
  cases unit with
  | nil => exact ⟨List.append_nil _, rfl⟩
  | cons c cs =>
    have hc : ¬ c.isDigit := hunit c rfl
    rw [List.takeWhile_cons_of_neg hc, List.dropWhile_cons_of_neg hc]
    exact ⟨List.append_nil _, rfl⟩

theorem scanIgnoreWhitespace_space_of_scan {t : Token} (h : scan cs = (t, rest)) (ht : t.Ended) :
    scanIgnoreWhitespace (' ' :: cs) = (t, rest) := by
  refine scanIgnoreWhitespace_space_cons ?_ ht
  rw [scanIgnoreWhitespace, h]
  cases t <;> first | rfl | exact absurd ht id

theorem scan_integer (i : ℤ) : scanIgnoreWhitespace (' ' :: (Int.repr i).toList) = (.integer (Int.repr i), []) := by
  obtain ⟨sign, ds, htext, hds, hscan⟩ := scan_repr i
  obtain ⟨htake, hdrop⟩ := takeWhile_digits_unit hds [] nofun
  refine scanIgnoreWhitespace_space_of_scan ?_ trivial
  rw [← List.append_nil (Int.repr i).toList, hscan, scanNumber, htake, hdrop, htext, String.ofList_toList]

theorem scan_nanoseconds (i : ℤ) :
    scanIgnoreWhitespace (' ' :: (Int.repr i ++ "ns").toList) = (.durationVal (Int.repr i ++ "ns"), []) := by
  obtain ⟨sign, ds, htext, hds, hscan⟩ := scan_repr i
  have hunit : ∀ c ∈ ['n', 's'].head?, ¬ c.isDigit := by
    rintro c ⟨⟩
    exact Bool.false_ne_true
  obtain ⟨htake, hdrop⟩ := takeWhile_digits_unit hds ['n', 's'] hunit
  refine scanIgnoreWhitespace_space_of_scan ?_ trivial
  rw [String.toList_append, show "ns".toList = ['n', 's'] from rfl, hscan, scanNumber, htake, hdrop, htext]
  show (Token.durationVal (String.ofList ((Int.repr i).toList ++ ['n', 's'])), []) = _
  rw [String.ofList_append, String.ofList_toList]

theorem Grammar.Numbers.run_integer (hn : g.Numbers) (hi : Representable i) :
    g.parseUnaryExpr.run (' ' :: (Int.repr i).toList) = some (.integer i, []) := by
  rw [parseUnaryExpr, run_ahead_bind, scan_integer]
  exact hn.integer hi

theorem Grammar.Numbers.run_nanoseconds (hn : g.Numbers) (hi : Representable i) :
    g.parseUnaryExpr.run (' ' :: (Int.repr i ++ "ns").toList) = some (.duration i, []) := by
  rw [parseUnaryExpr, run_ahead_bind, scan_nanoseconds]
  exact hn.nanoseconds hi

end Numbers

end Influxql

namespace Annotations

open Influxql Grammar
open Influx.Request (Name scan_name run_orderBy run_selectAll)

/-! ### The condition -/

/-- What the query asks for without filters. -/
def inRangeConjuncts (start stop : ℤ) : List Expr :=
  [.binary .eq (.varRef "deleted" .unknown) (.boolean false), .binary .gte (.varRef "time" .unknown) (.duration start),
    .binary .lte (.varRef "start_time" .unknown) (.integer stop)]

def inRangeExpr (start stop : ℤ) : Expr :=
  .binary .and (.binary .and (.binary .eq (.varRef "deleted" .unknown) (.boolean false))
    (.binary .gte (.varRef "time" .unknown) (.duration start))) (.binary .lte (.varRef "start_time" .unknown) (.integer stop))

/-- The alternatives of the whole condition. -/
def pieces (start stop : ℤ) (filters : List Expr) : List (List Expr) :=
  filters.foldl (fun A f => joinAlternatives A f.alternatives) [inRangeConjuncts start stop]

theorem alternatives_inRangeExpr (start stop : ℤ) : (inRangeExpr start stop).alternatives = [inRangeConjuncts start stop] := rfl

section Condition

variable {g : Grammar} {cs rest : List Char} {e e' f : Expr} {start stop : ℤ}

/-- The text of the condition on deletion and time. -/
def inRangeText (start stop : ℤ) : List Char :=
  ' ' :: '"' :: ("deleted".toList ++ '"' :: '=' :: ("false".toList ++ ' ' :: ("AND".toList ++ ' ' :: ("time".toList ++
    ' ' :: '>' :: '=' :: ' ' :: ((Int.repr start ++ "ns").toList ++ ' ' :: ("and".toList ++ ' ' :: '"' :: ("start_time".toList ++
      '"' :: ' ' :: '<' :: '=' :: ' ' :: (Int.repr stop).toList)))))))

theorem parse_inRange (hg : g.Spaced) (hn : g.Numbers) (hstart : Representable start) (hstop : Representable stop) :
    g.parseExpr.run (inRangeText start stop) = some (inRangeExpr start stop, []) := by
  have hdeleted : Name "deleted" := by
    unfold Name
    decide +kernel
  have hstartTime : Name "start_time" := by
    unfold Name
    decide +kernel
  have hfalse : isWord "false".toList (.boolean false) := by decide +kernel
  have hand : isWord "AND".toList (.op .and) := by decide +kernel
  have htime : isWord "time".toList (.ident "time") := by decide +kernel
  have hand' : isWord "and".toList (.op .and) := by decide +kernel
  have heq : ∀ cs, scanIgnoreWhitespace ('=' :: ("false".toList ++ cs)) = (.op .eq, "false".toList ++ cs) := fun _ => rfl
  have hgte : ∀ cs, scanIgnoreWhitespace (' ' :: '>' :: '=' :: cs) = (.op .gte, cs) := fun _ => rfl
  have hlte : ∀ cs, scanIgnoreWhitespace (' ' :: '<' :: '=' :: cs) = (.op .lte, cs) := fun _ => rfl
  have hns : ∀ more, g.parseUnaryExpr.run (' ' :: ((Int.repr start ++ "ns").toList ++ ' ' :: more)) =
      some (.duration start, ' ' :: more) := fun more => parseUnaryExpr_append hg (hn.run_nanoseconds hstart) (.inl rfl) more
  rw [parseExpr, inRangeText, Parser.run_bind_of_some (parseUnaryExpr_of_ident (scan_name hdeleted _) (.inl ⟨.eq, rfl⟩)),
    Parser.run_iterate_of_inl parseOperator_takes (parseOperator_of_op (heq _) (by decide)
      (parseUnaryExpr_of_boolean (scanIgnoreWhitespace_word hfalse _))),
    Parser.run_iterate_of_inl parseOperator_takes (parseOperator_of_op (scanIgnoreWhitespace_space_word hand _) (by decide)
      (parseUnaryExpr_of_ident (scanIgnoreWhitespace_space_word htime _) (.inr rfl))),
    Parser.run_iterate_of_inl parseOperator_takes (parseOperator_of_op (hgte _) (by decide) (hns _)),
    Parser.run_iterate_of_inl parseOperator_takes (parseOperator_of_op (scanIgnoreWhitespace_space_word hand' _) (by decide)
      (parseUnaryExpr_of_ident (scan_name hstartTime _) (.inr rfl))),
    Parser.run_iterate_of_inl parseOperator_takes (parseOperator_of_op (hlte _) (by decide) (hn.run_integer hstop))]
  have hend : ∀ op, (scanIgnoreWhitespace []).1 ≠ .op op := by
    intro op h
    cases h
  exact Parser.run_iterate_of_inr (parseOperator_stop hend)

/-- The texts of the filters, each after AND. -/
def filterTexts (texts : List (List Char)) : List Char := texts.flatMap fun s => " AND ".toList ++ s

def orderText : List Char := " ORDER BY time DESC".toList

/-- The text behind a filter. -/
theorem filterTexts_space (texts : List (List Char)) : ∃ more, filterTexts texts ++ orderText = ' ' :: more := by
  cases texts with
  | nil => exact ⟨_, rfl⟩
  | cons s texts => exact ⟨_, rfl⟩

theorem scan_filterTexts (s : List Char) (texts : List (List Char)) :
    scanIgnoreWhitespace (filterTexts (s :: texts) ++ orderText) = (.op .and, ' ' :: (s ++ (filterTexts texts ++ orderText))) := by
  have hand : isWord "AND".toList (.op .and) := by decide +kernel
  have htext : filterTexts (s :: texts) ++ orderText = ' ' :: ("AND".toList ++ ' ' :: (s ++ (filterTexts texts ++ orderText))) := by
    simp [filterTexts]
  rw [htext]
  exact scanIgnoreWhitespace_space_word hand _

/-- One filter is joined with the expression before it. -/
theorem run_filter (hg : g.Spaced) {s : List Char} (hread : g.parseExpr.run s = some (f, [])) (texts : List (List Char)) (e : Expr) :
    ∃ e', e'.alternatives = joinAlternatives e.alternatives f.alternatives ∧ ∀ before,
      scanIgnoreWhitespace before = (.op .and, ' ' :: (s ++ (filterTexts texts ++ orderText))) →
        (Parser.iterate g.parseOperator e).run before = (Parser.iterate g.parseOperator e').run (filterTexts texts ++ orderText) := by
  obtain ⟨e₀, ops, rfl, hsingle, hops, hrun⟩ := run_iterate_expr hg hread
  obtain ⟨more, hmore⟩ := filterTexts_space texts
  refine ⟨extend e ((.and, e₀) :: ops), alternatives_extend_and hsingle hops e, fun before hscan => ?_⟩
  rw [hmore] at hscan ⊢
  exact hrun e .and before more (by decide) hscan

/-- The filters, read one after the other, are joined with the expression before them. -/
theorem run_filters (hg : g.Spaced) {texts : List (List Char)} {fs : List Expr}
    (hread : List.Forall₂ (fun s f => g.parseExpr.run s = some (f, [])) texts fs) (e : Expr) : ∃ T,
      (Parser.iterate g.parseOperator e).run (filterTexts texts ++ orderText) = some (T, orderText) ∧
      T.alternatives = fs.foldl (fun A f => joinAlternatives A f.alternatives) e.alternatives := by
  induction hread generalizing e with
  | nil =>
    have horder : (scanIgnoreWhitespace orderText).1 = .word .order := rfl
    exact ⟨e, Parser.run_iterate_of_inr (parseOperator_stop fun op hop => absurd (horder.symm.trans hop) nofun), rfl⟩
  | @cons s f texts fs hfirst hrest ih =>
    obtain ⟨e', halternatives, hrun⟩ := run_filter hg hfirst texts e
    obtain ⟨T, hT, hrest⟩ := ih e'
    refine ⟨T, ?_, ?_⟩
    · rw [hrun _ (scan_filterTexts s texts), hT]
    · rw [hrest, halternatives, List.foldl_cons]

/-- The condition up to its end, where one more space comes before the filters. -/
theorem run_condition (hg : g.Spaced) (hn : g.Numbers) (hstart : Representable start) (hstop : Representable stop) {texts : List (List Char)} {fs : List Expr}
    (hread : List.Forall₂ (fun s f => g.parseExpr.run s = some (f, [])) texts fs) : ∃ T rest,
      g.parseExpr.run (inRangeText start stop ++ ' ' :: (filterTexts texts ++ orderText)) = some (T, rest) ∧
      (rest = orderText ∨ rest = ' ' :: orderText) ∧ T.alternatives = pieces start stop fs := by
  rw [parseExpr_append hg (parse_inRange hg hn hstart hstop)]
  cases hread with
  | nil =>
    have horder : (scanIgnoreWhitespace (' ' :: orderText)).1 = .word .order := rfl
    exact ⟨inRangeExpr start stop, _, Parser.run_iterate_of_inr (parseOperator_stop fun op hop => absurd (horder.symm.trans hop) nofun),
      .inr rfl, rfl⟩
  | @cons s f texts fs hfirst hrest =>
    obtain ⟨e', halternatives, hrun⟩ := run_filter hg hfirst texts (inRangeExpr start stop)
    obtain ⟨T, hT, hrest⟩ := run_filters hg hrest e'
    refine ⟨T, orderText, ?_, .inl rfl, ?_⟩
    · rw [hrun _ (scanIgnoreWhitespace_space_cons (scan_filterTexts s texts) trivial), hT]
    · rw [hrest, halternatives]
      rfl

/-- What `AnnotationStore.All` adds to its query. -/
def filterExpr (texts : List String) : String :=
  if texts.length > 0 then " AND " ++ " AND ".intercalate texts else ""

theorem toList_filterExpr (texts : List String) : (filterExpr texts).toList = filterTexts (texts.map String.toList) := by
  have hcons : ∀ (texts : List String) (s : String),
      (" AND ".intercalate (s :: texts)).toList = s.toList ++ filterTexts (texts.map String.toList) := by
    intro texts
    induction texts with
    | nil => exact fun s => by rw [String.intercalate_singleton]; exact (List.append_nil _).symm
    | cons t texts ih =>
      intro s
      rw [String.intercalate_cons_cons, String.toList_append, String.toList_append, ih, List.map_cons, filterTexts, filterTexts,
        List.flatMap_cons, List.append_assoc, List.append_assoc]
  cases texts with
  | nil => rfl
  | cons s texts =>
    rw [filterExpr, if_pos (by rw [List.length_cons]; exact Nat.succ_pos _), String.toList_append, hcons, List.map_cons, filterTexts, filterTexts,
      List.flatMap_cons, List.append_assoc]

theorem toList_allAnnotations_filters (start stop : ℤ) (texts : List String) :
    (allAnnotations start stop (filterExpr texts)).toList = "SELECT".toList ++ ' ' :: '*' :: ' ' :: ("FROM".toList ++ ' ' :: '"' ::
      ("annotations".toList ++ '"' :: ' ' :: ("WHERE".toList ++
        (inRangeText start stop ++ ' ' :: (filterTexts (texts.map String.toList) ++ orderText))))) := by
  rw [← toList_filterExpr]
  delta allAnnotations inRangeText orderText
  simp only [String.toList_append, String.reduceToList, List.cons_append, List.nil_append, List.append_assoc]

/-- The query is one statement, with the alternatives of the filters in its condition. -/
theorem parseQuery_allAnnotations (hg : g.Spaced) (hn : g.Numbers) (hstart : Representable start) (hstop : Representable stop) {texts : List String} {fs : List Expr}
    (hread : List.Forall₂ (fun s f => g.parseExpr.run s.toList = some (f, [])) texts fs) : ∃ statement T,
      g.parseQuery (allAnnotations start stop (filterExpr texts)) = some [.select statement] ∧
      statement.condition = some T ∧ T.alternatives = pieces start stop fs := by
  have hselect : isWord "SELECT".toList (.word .select) := rfl
  have hchars : List.Forall₂ (fun s f => g.parseExpr.run s = some (f, [])) (texts.map String.toList) fs :=
    List.forall₂_map_left_iff.mpr hread
  obtain ⟨T, rest, hcondition, hrest, halternatives⟩ := run_condition hg hn hstart hstop hchars
  have horder : parseOrderBy.run rest = some ([⟨"time", false⟩], []) := by
    rcases hrest with rfl | rfl <;> exact run_orderBy rfl
  let statement : SelectStatement :=
    ⟨[⟨.wildcard .any, ""⟩], [⟨"", "", "annotations", none⟩], some T, [], .null, [⟨"time", false⟩], 0, 0, 0, 0⟩
  have hwhere : (g.parseSelectWhere "annotations").run
      (inRangeText start stop ++ ' ' :: (filterTexts (texts.map String.toList) ++ orderText)) = some (.select statement, []) := by
    rw [parseSelectWhere, Parser.run_bind_of_some hcondition, Parser.run_bind_of_some horder]
    rfl
  have hstatement : g.parseStatement.run (allAnnotations start stop (filterExpr texts)).toList = some (.select statement, []) := by
    rw [toList_allAnnotations_filters, parseStatement_select (scanIgnoreWhitespace_word hselect _), parseSelectStatement]
    exact Parser.run_orElse_of_some ((run_selectAll rfl).trans hwhere)
  have hword : (scanIgnoreWhitespace (allAnnotations start stop (filterExpr texts)).toList).1 = .word .select := by
    rw [toList_allAnnotations_filters, scanIgnoreWhitespace_word hselect]
  exact ⟨statement, T, (parseQuery_single hword).mpr ⟨[], hstatement, closed_nil⟩, rfl, halternatives⟩

end Condition

end Annotations
end Chronograf
