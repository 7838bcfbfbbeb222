/-
# Names in regular expressions

`replaceAllRegex` goes through the regular expressions of a text and replaces the
first occurrence of the name in each. Where the names are as they were read, none
is twice in one regular expression, and the value has no slash and no replacement
pattern, these are all occurrences within regular expressions.

Key theorems: `replaceAllRegexFrom_regex`, `replace_textOf`, `replaceAllRegex_textOf`.
-/
import Chronograf.TempVars.Pieces
import Mathlib.Data.List.TakeWhile

namespace Chronograf
namespace Templates

/-! ### One regular expression -/

theorem findNext_eq (before : List Char) {w : List Char} (hw : '/' ∉ w) (after : List Char) :
    findNext (before ++ (w ++ '/' :: after)) before.length = .ok (before.length + w.length) := by
  have hdrop : (before ++ (w ++ '/' :: after)).drop before.length = w ++ '/' :: after := List.drop_left
  have hindex : (w ++ '/' :: after).idxOf '/' = w.length := by
    rw [List.idxOf_append_of_notMem hw, List.idxOf_cons_self, Nat.add_zero]
  unfold findNext
  simp only [hdrop, hindex]
  rw [if_pos (List.mem_append_right _ List.mem_cons_self)]

variable {search replacement : List Char}

theorem replaceAllRegexFrom_next {result : List Char} {i : ℕ} (h : comparator (result.drop i) = false) :
    replaceAllRegexFrom search replacement result i = replaceAllRegexFrom search replacement result (i + 1) := by
  have hstart : isStartOfRegex result i = false := h
  by_cases hlt : i + 1 < result.length
  · conv_lhs => rw [replaceAllRegexFrom, if_pos hlt, hstart]
    rfl
  · rw [replaceAllRegexFrom, if_neg hlt, replaceAllRegexFrom, if_neg (by omega)]

/-- What no regular expression begins in is passed over. -/
theorem replaceAllRegexFrom_skip (search replacement after : List Char) : ∀ (before a : List Char),
    (∀ i < a.length, comparator ((a ++ after).drop i) = false) →
      replaceAllRegexFrom search replacement (before ++ (a ++ after)) before.length =
        replaceAllRegexFrom search replacement (before ++ a ++ after) (before ++ a).length
  | before, [], _ => by simp
  | before, c :: a, h => by
    have hfirst : comparator ((before ++ (c :: a ++ after)).drop before.length) = false := by
      rw [List.drop_left]
      exact h 0 (Nat.zero_lt_succ _)
    have ih := replaceAllRegexFrom_skip search replacement after (before ++ [c]) a fun i hi => h (i + 1) (Nat.succ_lt_succ hi)
    rw [replaceAllRegexFrom_next hfirst]
    simpa only [List.append_assoc, List.cons_append, List.nil_append, List.length_append, List.length_cons, List.length_nil,
      List.singleton_append, Nat.zero_add, Nat.add_assoc, Nat.add_comm 1] using ih

/-- In a regular expression the first occurrence is replaced; the next slash is
where it goes on. -/
theorem replaceAllRegexFrom_regex (before : List Char) {w content after a rest : List Char} (hw : '/' ∉ w) (hcontent : '/' ∉ content)
    (hreplaced : replace content search replacement ++ '/' :: after = a ++ '/' :: rest) (ha : '/' ∉ a)
    (hstart : comparator (w ++ '/' :: (content ++ '/' :: after)) = true) :
    replaceAllRegexFrom search replacement (before ++ (w ++ '/' :: (content ++ '/' :: after))) before.length =
      replaceAllRegexFrom search replacement ((before ++ w ++ '/' :: a) ++ '/' :: rest) (before ++ w ++ '/' :: a).length := by
  have hlt : before.length + 1 < (before ++ (w ++ '/' :: (content ++ '/' :: after))).length := by
    simp only [List.length_append, List.length_cons]
    omega
  have hregex : isStartOfRegex (before ++ (w ++ '/' :: (content ++ '/' :: after))) before.length = true := by
    unfold isStartOfRegex
    rw [List.drop_left]
    exact hstart
  have hresult : before ++ (w ++ '/' :: (content ++ '/' :: after)) = (before ++ w ++ ['/']) ++ (content ++ '/' :: after) := by
    simp
  have hlength : (before ++ w ++ ['/']).length = before.length + w.length + 1 := by simp [Nat.add_assoc]
  have hbegin := findNext_eq before hw (content ++ '/' :: after)
  have hend : findNext (before ++ (w ++ '/' :: (content ++ '/' :: after))) (before.length + w.length + 1) =
      .ok (before.length + w.length + 1 + content.length) := by
    rw [hresult, ← hlength]
    exact findNext_eq (before ++ w ++ ['/']) hcontent after
  have htake : (before ++ (w ++ '/' :: (content ++ '/' :: after))).take (before.length + w.length + 1) = before ++ w ++ ['/'] := by
    rw [hresult, ← hlength, List.take_left]
  have hmiddle : ((before ++ (w ++ '/' :: (content ++ '/' :: after))).take (before.length + w.length + 1 + content.length)).drop
      (before.length + w.length + 1) = content := by
    rw [hresult, ← hlength, ← List.length_append, ← List.append_assoc, List.take_left, List.drop_left]
  have hdrop : (before ++ (w ++ '/' :: (content ++ '/' :: after))).drop (before.length + w.length + 1 + content.length) = '/' :: after := by
    rw [hresult, ← hlength, ← List.length_append, ← List.append_assoc, List.drop_left]
  have hjoin : before ++ w ++ ['/'] ++ replace content search replacement ++ '/' :: after = (before ++ w ++ '/' :: a) ++ '/' :: rest := by
    rw [List.append_assoc, hreplaced]
    simp
  have hnext : findNext ((before ++ w ++ '/' :: a) ++ '/' :: rest) (before.length + w.length + 1) =
      .ok (before ++ w ++ '/' :: a).length := by
    have hsplit : (before ++ w ++ '/' :: a) ++ '/' :: rest = (before ++ w ++ ['/']) ++ (a ++ '/' :: rest) := by simp
    rw [hsplit, ← hlength, findNext_eq (before ++ w ++ ['/']) ha rest]
    simp only [List.length_append, List.length_cons, List.length_nil]
    congr 1
    omega
  have hstep : replaceRegexAt search replacement (before ++ (w ++ '/' :: (content ++ '/' :: after))) before.length =
      .ok ((before ++ w ++ '/' :: a) ++ '/' :: rest, (before ++ w ++ '/' :: a).length) := by
    unfold replaceRegexAt
    simp only [hbegin, hend, hmiddle, htake, hdrop, hjoin, hnext, bind, Except.bind, pure, Except.pure]
  rw [replaceAllRegexFrom, if_pos hlt, if_pos hregex, hstep]
  rfl

/-! ### All of them -/

theorem getSubstitution_of_noPattern (matched before after : List Char) {value : List Char} (h : NoPattern value) :
    getSubstitution matched before after value = value := by
  have hrest : ∀ {c : Char} {s : List Char}, NoPattern (c :: s) → NoPattern s :=
    fun {c s} h d hd hsub => h d hd (hsub.trans (List.suffix_cons c s).isInfix)
  have hpattern : ∀ {c d e : Char} {s : List Char}, NoPattern (c :: d :: s) → e ∈ [dollar, ampersand, backquote, apostrophe] →
      ¬ (c = dollar ∧ d = e) := by
    rintro c d e s h he ⟨rfl, rfl⟩
    exact h d he (List.prefix_append [dollar, d] s).isInfix
  fun_induction getSubstitution matched before after value with
  | case1 => rfl
  | case2 c => rfl
  | case3 c d s hd => exact absurd hd (hpattern h (by simp))
  | case4 c d s _ hd => exact absurd hd (hpattern h (by simp))
  | case5 c d s _ _ hd => exact absurd hd (hpattern h (by simp))
  | case6 c d s _ _ _ hd => exact absurd hd (hpattern h (by simp))
  | case7 c d s _ _ _ _ ih => rw [ih (hrest h)]

/-- The text with one value in for the names within regular expressions. -/
def fillInside (t : Template) (value : List Char) (E : List Piece) : List Char :=
  E.flatMap fun
    | .char c => [c]
    | .name u inside => if u = t ∧ inside then value else u.tempVar.toList

/-- Before a slash, a name that is clear in the whole text is clear. -/
theorem Clear.of_append {t : Template} : ∀ {E F : List Piece}, Clear t (E ++ F) → Clear t E ∧ Clear t F
  | [], _, h => ⟨trivial, h⟩
  | .char c :: E, F, h => by
    obtain ⟨hc, hrest⟩ := h
    obtain ⟨hE, hF⟩ := Clear.of_append hrest
    refine ⟨⟨fun hprefix => hc ?_, hE⟩, hF⟩
    show t.tempVar.toList <+: c :: textOf (E ++ F)
    rw [textOf_append, ← List.cons_append]
    exact hprefix.trans (List.prefix_append _ _)
  | .name u inside :: E, F, h => by
    obtain ⟨hu, hrest⟩ := h
    obtain ⟨hE, hF⟩ := Clear.of_append hrest
    refine ⟨⟨hu.imp_right fun hall i hi hprefix => hall i hi ?_, hE⟩, hF⟩
    show t.tempVar.toList <+: (u.tempVar.toList ++ textOf (E ++ F)).drop i
    rw [textOf_append, ← List.append_assoc, List.drop_append_of_le_length (by rw [List.length_append]; omega)]
    exact hprefix.trans (List.prefix_append _ _)

theorem replaceFrom_keep {before a after : List Char} (h : ∀ i < a.length, ¬ search <+: (a ++ after).drop i) :
    replaceFrom search replacement before (a ++ after) = replaceFrom search replacement (before ++ a) after := by
  induction a generalizing before with
  | nil => rw [List.append_nil, List.nil_append]
  | cons c a ih =>
    have hfirst : ¬ search.isPrefixOf (c :: (a ++ after)) := mt List.isPrefixOf_iff_prefix.mp (h 0 (Nat.zero_lt_succ _))
    rw [List.cons_append, replaceFrom, if_neg hfirst, ih fun i hi => h (i + 1) (Nat.succ_lt_succ hi)]
    simp

/-- Without the name nothing is replaced. -/
theorem fillInside_of_seen {t : Template} {value : List Char} : ∀ {C : List Piece}, '/' ∉ textOf C →
    Once t true C → fillInside t value C = textOf C
  | [], _, _ => rfl
  | .char c :: C, hslash, h => by
    rw [textOf_char, List.mem_cons, not_or] at hslash
    have hnext : Once t true C := by
      have hc : c ≠ '/' := fun heq => hslash.1 heq.symm
      unfold Once at h
      simpa [hc] using h
    rw [textOf_char, ← fillInside_of_seen hslash.2 hnext]
    rfl
  | .name u inside :: C, hslash, h => by
    rw [textOf_name, List.mem_append, not_or] at hslash
    obtain ⟨hu, hrest⟩ := h
    have hnot : ¬ (u = t ∧ inside = true) := fun heq => hu ⟨rfl, heq⟩
    have ih : fillInside t value C = textOf C := fillInside_of_seen hslash.2 (by simpa using hrest)
    rw [textOf_name, ← ih]
    unfold fillInside
    rw [List.flatMap_cons]
    simp only [if_neg hnot]

/-- In one regular expression, the first occurrence is the only one. -/
theorem replaceFrom_textOf {t : Template} (hname : t.tempVar.toList ≠ []) {value : List Char} :
    ∀ {C : List Piece} (before : List Char), (Piece.name t true ∈ C → NoPattern value) → '/' ∉ textOf C → Clear t C →
      Once t false C → (∀ u inside, Piece.name u inside ∈ C → inside = true) →
      replaceFrom t.tempVar.toList value before (textOf C) = before ++ fillInside t value C
  | [], before, _, _, _, _, _ => by
    rw [textOf_nil, replaceFrom, if_neg hname]
    exact (List.append_nil _).symm
  | .char c :: C, before, hvalue, hslash, hclear, honce, hinside => by
    obtain ⟨hc, hrest⟩ := hclear
    rw [textOf_char, List.mem_cons, not_or] at hslash
    have hfirst : ¬ t.tempVar.toList.isPrefixOf (c :: textOf C) := mt List.isPrefixOf_iff_prefix.mp hc
    have ih := replaceFrom_textOf hname (before ++ [c]) (fun hmem => hvalue (List.mem_cons_of_mem _ hmem)) hslash.2 hrest honce
      fun u inside hu => hinside u inside (List.mem_cons_of_mem _ hu)
    rw [textOf_char, replaceFrom, if_neg hfirst, ih, List.append_assoc]
    rfl
  | .name u inside :: C, before, hvalue, hslash, hclear, honce, hinside => by
    obtain ⟨hu, hrest⟩ := hclear
    rw [textOf_name, List.mem_append, not_or] at hslash
    obtain rfl := hinside u inside List.mem_cons_self
    obtain ⟨-, honce⟩ := honce
    by_cases heq : u = t
    · subst heq
      obtain ⟨d, name, hd⟩ := List.exists_cons_of_ne_nil hname
      have hsplit : u.tempVar.toList ++ textOf C = d :: (name ++ textOf C) := by rw [hd, List.cons_append]
      have hmatch : u.tempVar.toList.isPrefixOf (d :: (name ++ textOf C)) = true :=
        List.isPrefixOf_iff_prefix.mpr (hsplit ▸ List.prefix_append _ _)
      have hafter : (d :: (name ++ textOf C)).drop u.tempVar.toList.length = textOf C := by
        rw [← hsplit, List.drop_left]
      have hseen : fillInside u value C = textOf C := fillInside_of_seen hslash.2 (by simpa using honce)
      rw [textOf_name, hsplit, replaceFrom, if_pos hmatch]
      simp only [hafter, getSubstitution_of_noPattern _ _ _ (hvalue List.mem_cons_self)]
      unfold fillInside at hseen ⊢
      rw [List.flatMap_cons, hseen, List.append_assoc]
      simp
    · have ih := replaceFrom_textOf hname (before ++ u.tempVar.toList) (fun hmem => hvalue (List.mem_cons_of_mem _ hmem)) hslash.2
        hrest (by simpa [heq] using honce) fun u inside hu => hinside u inside (List.mem_cons_of_mem _ hu)
      rw [textOf_name, replaceFrom_keep (hu.resolve_left heq), ih, List.append_assoc]
      unfold fillInside
      rw [List.flatMap_cons]
      simp [heq]

/-! ### A whole text -/

/-- What is not outside ends at the next slash. -/
theorem Marked.split {p : Place} (hp : p ≠ .outside) : ∀ {E : List Piece}, Marked p E →
    ∃ A F, E = A ++ .char '/' :: F ∧ '/' ∉ textOf A ∧ (∀ u inside, Piece.name u inside ∈ A → inside = decide (p = .inside)) ∧
      Marked (if p = .inside then .outside else .inside) F
  | [], h => absurd h hp
  | .char c :: E, h => by
    have hmarked : Marked (p.next (c :: textOf E)) E := by cases p <;> exact h
    by_cases hc : c = '/'
    · subst hc
      refine ⟨[], E, rfl, List.not_mem_nil, fun u inside hu => absurd hu List.not_mem_nil, ?_⟩
      cases p with
      | outside => exact absurd rfl hp
      | waiting => exact hmarked
      | inside => exact hmarked
    · have hnext : p.next (c :: textOf E) = p := by
        cases p with
        | outside => exact absurd rfl hp
        | waiting => simp [Place.next, hc]
        | inside => simp [Place.next, hc]
      rw [hnext] at hmarked
      obtain ⟨A, F, rfl, hslash, hnames, hF⟩ := Marked.split hp hmarked
      refine ⟨.char c :: A, F, rfl, ?_, fun u inside hu => hnames u inside (by simpa using hu), hF⟩
      rw [textOf_char, List.mem_cons, not_or]
      exact ⟨fun heq => hc heq.symm, hslash⟩
  | .name u inside :: E, h => by
    have hu : inside = decide (p = .inside) ∧ '/' ∉ u.tempVar.toList ∧ Marked p E := by
      cases p with
      | outside => exact absurd rfl hp
      | waiting => exact h
      | inside => exact h
    obtain ⟨hinside, hname, hmarked⟩ := hu
    obtain ⟨A, F, rfl, hslash, hnames, hF⟩ := Marked.split hp hmarked
    refine ⟨.name u inside :: A, F, rfl, ?_, fun x i hx => ?_, hF⟩
    · rw [textOf_name, List.mem_append, not_or]
      exact ⟨hname, hslash⟩
    · rcases List.mem_cons.mp hx with heq | hx
      · cases heq
        exact hinside
      · exact hnames x i hx

/-- After a slash, no name has been there. -/
theorem Once.split {t : Template} : ∀ {seen : Bool} {A F : List Piece}, Once t seen (A ++ .char '/' :: F) →
    Once t seen A ∧ Once t false F
  | seen, [], F, h => ⟨trivial, by simpa [Once] using h⟩
  | seen, .char c :: A, F, h => Once.split (A := A) h
  | seen, .name u inside :: A, F, ⟨hu, hrest⟩ =>
    have ih := Once.split (A := A) hrest
    ⟨⟨hu, ih.1⟩, ih.2⟩

@[simp] theorem fillInside_char (t : Template) (value : List Char) (c : Char) (E : List Piece) :
    fillInside t value (.char c :: E) = c :: fillInside t value E := rfl

@[simp] theorem fillInside_name (t : Template) (value : List Char) (u : Template) (inside : Bool) (E : List Piece) :
    fillInside t value (.name u inside :: E) = (if u = t ∧ inside then value else u.tempVar.toList) ++ fillInside t value E := rfl

@[simp] theorem fillInside_append (t : Template) (value : List Char) (E F : List Piece) :
    fillInside t value (E ++ F) = fillInside t value E ++ fillInside t value F := List.flatMap_append

theorem fillInside_of_absent {t : Template} {value : List Char} : ∀ {E : List Piece}, Piece.name t true ∉ E →
    fillInside t value E = textOf E
  | [], _ => rfl
  | .char c :: E, h => by
    rw [fillInside_char, fillInside_of_absent fun hmem => h (List.mem_cons_of_mem _ hmem), textOf_char]
  | .name u inside :: E, h => by
    have hnot : ¬ (u = t ∧ inside = true) := by
      rintro ⟨rfl, rfl⟩
      exact h List.mem_cons_self
    rw [fillInside_name, if_neg hnot, fillInside_of_absent fun hmem => h (List.mem_cons_of_mem _ hmem), textOf_name]

theorem Plain.of_append {t : Template} {value : List Char} {P E : List Piece} (h : Plain t value (P ++ E)) : Plain t value E := by
  rintro A B rfl
  exact h (P ++ A) B (List.append_assoc _ _ _).symm

/-- Of a regular expression it is the same without the rest of the text. -/
theorem Plain.content {t : Template} {value : List Char} {C G : List Piece} (h : Plain t value (C ++ .char '/' :: G))
    (hslash : '/' ∉ textOf C) : Plain t value C := by
  rintro A B rfl
  have hB : ∀ c ∈ textOf B, decide (c ≠ '/') = true := by
    intro c hc
    have hmem : c ∈ textOf (A ++ .name t true :: B) := by simp [hc]
    exact decide_eq_true (ne_of_mem_of_not_mem hmem hslash)
  have hwhole := h A (B ++ .char '/' :: G) (by simp)
  rw [textOf_append, List.takeWhile_append_of_pos hB, textOf_char, List.takeWhile_cons_of_neg (by simp), List.append_nil] at hwhole
  have hself : (textOf B).takeWhile (fun c => decide (c ≠ '/')) = textOf B := List.takeWhile_eq_self_iff.mpr hB
  rwa [hself]

theorem Once.after {t : Template} : ∀ {seen : Bool} {A B : List Piece}, Once t seen (A ++ .name t true :: B) → Once t true B
  | seen, [], B, h => by simpa using h.2
  | seen, .char c :: A, B, h => Once.after (A := A) h
  | seen, .name u inside :: A, B, h => Once.after (A := A) h.2

theorem exists_dropWhile_slash : ∀ {s : List Char}, '/' ∈ s → ∃ e, s.dropWhile (fun c => decide (c ≠ '/')) = '/' :: e
  | c :: s, h => by
    by_cases hc : c = '/'
    · subst hc
      exact ⟨s, List.dropWhile_cons_of_neg (by simp)⟩
    · rw [List.dropWhile_cons_of_pos (by simpa using hc)]
      exact exists_dropWhile_slash ((List.mem_cons.mp h).resolve_left (Ne.symm hc))

/-- What a regular expression is after a value is put in, up to the first slash
and from there on. -/
theorem exists_fillInside_eq {t : Template} {value : List Char} {C : List Piece} (hplain : Plain t value C)
    (hslash : '/' ∉ textOf C) (honce : Once t false C) :
    ∃ a d, fillInside t value C = a ++ d ∧ '/' ∉ a ∧ (d = [] ∨ ∃ e, d = '/' :: e) ∧ NoComparison d := by
  have hnil : NoComparison [] := fun i => by
    rw [List.drop_nil]
    rfl
  by_cases hmem : Piece.name t true ∈ C
  · obtain ⟨A, B, rfl, hfirst⟩ := List.eq_append_cons_of_mem hmem
    have hB : '/' ∉ textOf B := fun h => hslash (by simp [h])
    have hA : '/' ∉ textOf A := fun h => hslash (by simp [h])
    have hfill : fillInside t value (A ++ .name t true :: B) = textOf A ++ (value ++ textOf B) := by
      rw [fillInside_append, fillInside_name, if_pos ⟨rfl, rfl⟩, fillInside_of_absent hfirst, fillInside_of_seen hB honce.after]
    by_cases hvalue : '/' ∈ value
    · have hrest := (hplain A B rfl).2 hvalue
      have hB' : (textOf B).takeWhile (fun c => decide (c ≠ '/')) = textOf B :=
        List.takeWhile_eq_self_iff.mpr fun c hc => decide_eq_true (ne_of_mem_of_not_mem hc hB)
      rw [hB'] at hrest
      refine ⟨textOf A ++ value.takeWhile (· ≠ '/'), value.dropWhile (· ≠ '/') ++ textOf B, ?_, ?_, ?_, hrest⟩
      · rw [hfill, List.append_assoc, ← List.append_assoc (value.takeWhile _), List.takeWhile_append_dropWhile]
      · rw [List.mem_append, not_or]
        refine ⟨hA, fun h => ?_⟩
        simpa using List.mem_takeWhile_imp h
      · obtain ⟨e, he⟩ := exists_dropWhile_slash hvalue
        exact .inr ⟨e ++ textOf B, by rw [he, List.cons_append]⟩
    · refine ⟨fillInside t value (A ++ .name t true :: B), [], (List.append_nil _).symm, ?_, .inl rfl, hnil⟩
      rw [hfill, List.mem_append, List.mem_append, not_or, not_or]
      exact ⟨hA, hvalue, hB⟩
  · refine ⟨textOf C, [], ?_, hslash, .inl rfl, hnil⟩
    rw [fillInside_of_absent hmem, List.append_nil]

/-- In a regular expression the name is replaced wherever it is. -/
theorem replace_textOf {t : Template} (hname : t.tempVar.toList ≠ []) {value : List Char} {C : List Piece}
    (hplain : Plain t value C) (hslash : '/' ∉ textOf C) (hclear : Clear t C) (honce : Once t false C)
    (hinside : ∀ u inside, Piece.name u inside ∈ C → inside = true) :
    replace (textOf C) t.tempVar.toList value = fillInside t value C := by
  refine replaceFrom_textOf hname [] (fun hmem => ?_) hslash hclear honce hinside
  obtain ⟨A, B, hC⟩ := List.append_of_mem hmem
  exact (hplain A B hC).1

theorem next_of_comparator {s : List Char} (h : comparator s = true) : Place.outside.next s = .waiting := by
  show (if comparator s = true then Place.waiting else Place.outside) = .waiting
  rw [if_pos h]

theorem next_of_no_comparator {s : List Char} (h : ¬ comparator s = true) : Place.outside.next s = .outside := by
  show (if comparator s = true then Place.waiting else Place.outside) = .outside
  rw [if_neg h]

theorem ne_slash_of_comparator {c : Char} {s : List Char} (h : comparator (c :: s) = true) : c ≠ '/' := by
  rintro rfl
  unfold comparator at h
  simp at h

theorem comparator_append {s : List Char} (h : NoComparison s) (after : List Char) {i : ℕ} (hi : i < s.length) :
    comparator ((s ++ '/' :: after).drop i) = false := by
  rw [List.drop_append_of_le_length hi.le]
  have hno := h i
  obtain ⟨c, e, he⟩ := List.exists_cons_of_ne_nil (List.drop_eq_nil_iff.not.mpr (by omega : ¬ s.length ≤ i))
  rw [he] at hno ⊢
  match e with
  | [] => simp [comparator]
  | d :: e => exact hno

/-- Going through the regular expressions puts the value in for every name within one. -/
theorem replaceAllRegexFrom_textOf {t : Template} (hname : t.tempVar.toList ≠ []) {value : List Char} (before : List Char)
    (E : List Piece) (hplain : Plain t value E) (hmarked : Marked .outside E) (hclear : Clear t E) (honce : Once t false E) :
    replaceAllRegexFrom t.tempVar.toList value (before ++ textOf E) before.length = pure (before ++ fillInside t value E) := by
  induction hn : E.length using Nat.strong_induction_on generalizing before E with
  | _ n ih =>
    subst hn
    match E with
    | [] =>
      rw [replaceAllRegexFrom, if_neg (by simp)]
      rfl
    | .name u inside :: E =>
      obtain ⟨rfl, hstart, hmarked⟩ := hmarked
      have hrest := ih E.length (Nat.lt_succ_self _) (before ++ u.tempVar.toList) E (Plain.of_append (P := [_]) hplain) hmarked
        hclear.2 (by simpa using honce.2) rfl
      rw [textOf_name, replaceAllRegexFrom_skip _ _ _ before u.tempVar.toList hstart, hrest, fillInside_name]
      simp
    | .char c :: E =>
      have hmarked : Marked (Place.outside.next (c :: textOf E)) E := hmarked
      have honce : Once t false E := honce
      have hplain : Plain t value E := Plain.of_append (P := [_]) hplain
      by_cases hstart : comparator (c :: textOf E) = true
      · rw [next_of_comparator hstart] at hmarked
        -- what is before the regular expression, the regular expression, and what is after it
        obtain ⟨W, F, rfl, hW, hoff, hmarked⟩ := hmarked.split (by decide)
        obtain ⟨C, G, rfl, hC, hin, hmarked⟩ := Marked.split (p := .inside) (by decide) hmarked
        have honceF := honce.split.2
        have hclearF := (hclear.2.of_append).2.2
        have hplainF : Plain t value (C ++ .char '/' :: G) := Plain.of_append (P := W ++ [.char '/']) (by simpa using hplain)
        have hreplace := replace_textOf hname (hplainF.content hC) hC hclearF.of_append.1 honceF.split.1 hin
        obtain ⟨a, d, had, ha, hd, hno⟩ := exists_fillInside_eq (hplainF.content hC) hC honceF.split.1
        obtain ⟨rest, hrest⟩ : ∃ rest, d ++ '/' :: textOf G = '/' :: rest := by
          rcases hd with rfl | ⟨e, rfl⟩
          · exact ⟨textOf G, rfl⟩
          · exact ⟨e ++ '/' :: textOf G, rfl⟩
        have hw : '/' ∉ c :: textOf W := by
          rw [List.mem_cons, not_or]
          exact ⟨(ne_slash_of_comparator hstart).symm, hW⟩
        have hreplaced : replace (textOf C) t.tempVar.toList value ++ '/' :: textOf G = a ++ '/' :: rest := by
          rw [hreplace, had, List.append_assoc, hrest]
        have hregex := replaceAllRegexFrom_regex before hw hC hreplaced ha (by simpa using hstart)
        have hskip := replaceAllRegexFrom_skip t.tempVar.toList value ('/' :: textOf G)
          (before ++ (c :: textOf W) ++ '/' :: a) d fun i hi => comparator_append hno (textOf G) hi
        have hW' : fillInside t value W = textOf W := fillInside_of_absent fun hmem => by simpa using hoff t true hmem
        have hout : Marked .outside (.char '/' :: G) := by
          have hslash : ¬ comparator ('/' :: textOf G) = true := fun h => ne_slash_of_comparator h rfl
          show Marked (Place.outside.next ('/' :: textOf G)) G
          rw [next_of_no_comparator hslash]
          exact hmarked
        have hlast := ih (Piece.char '/' :: G).length (by simp; omega) (before ++ (c :: textOf W) ++ '/' :: a ++ d)
          (.char '/' :: G) hplainF.of_append hout hclearF.of_append.2 honceF.split.2 rfl
        rw [← hrest] at hregex
        simp only [textOf_char, textOf_append, fillInside_char, fillInside_append, hW', had]
        rw [textOf_char] at hlast
        simpa using (hregex.trans hskip).trans hlast
      · rw [next_of_no_comparator hstart] at hmarked
        have hrest := ih E.length (Nat.lt_succ_self _) (before ++ [c]) E hplain hmarked hclear.2 honce rfl
        have hskip := replaceAllRegexFrom_skip t.tempVar.toList value (textOf E) before [c]
          (by simpa using hstart)
        rw [textOf_char, fillInside_char]
        simpa using hskip.trans hrest

theorem replaceAllRegex_textOf {t : Template} (hname : t.tempVar.toList ≠ []) {value : List Char} {E : List Piece}
    (hplain : Plain t value E) (hmarked : Marked .outside E) (hclear : Clear t E) (honce : Once t false E) :
    replaceAllRegex (textOf E) t.tempVar.toList value = pure (fillInside t value E) :=
  replaceAllRegexFrom_textOf hname [] E hplain hmarked hclear honce

end Templates
end Chronograf
