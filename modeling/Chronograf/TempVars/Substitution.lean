/-
# Rendering is substitution

One template after the other, every name in the query is replaced by the value of
its template. Where every text on the way can be read, with the names where they
were and no name twice in one regular expression, a call of `renderTemplate` puts
the value in for the names of one template. A template is rendered before those
its value names, so in the end each value is there as it is rendered itself.

Key definitions: `expand`, `Substitutable`.
Key theorems: `renderTemplate_textOf`, `rendering_eq_foldl`,
`templateReplace_is_substitution`.
-/
import Chronograf.TempVars.RegexLiterals
import Chronograf.TempVars.Rendering

namespace Chronograf
namespace Templates

open DepthFirst

/-- The value of a template for all its names. -/
def expand (ts : List Template) (t : Template) (E : List Piece) : List Piece := fill (valueIn ts t fun _ => true) E

/-! ### One template -/

variable {ts : List Template}

theorem valueIn_self {t : Template} {places : Bool → Bool} {inside : Bool} (h : places inside = true) :
    valueIn ts t places t inside = (selectedTemplateValue t).map (valuePieces ts inside) := if_pos ⟨rfl, h⟩

theorem valueIn_other {t u : Template} {places : Bool → Bool} {inside : Bool} (h : u = t → places inside = false) :
    valueIn ts t places u inside = none := if_neg fun hu => by simp [h hu.1] at hu

theorem textOf_singleton (u : Template) (inside : Bool) : textOf [.name u inside] = u.tempVar.toList := List.append_nil _

theorem expand_char (t : Template) (c : Char) (E : List Piece) : expand ts t (.char c :: E) = .char c :: expand ts t E := rfl

theorem expand_of_absent {t : Template} : ∀ {E : List Piece}, (∀ inside, Piece.name t inside ∉ E) → expand ts t E = E
  | [], _ => rfl
  | .char c :: E, h => by rw [expand_char, expand_of_absent fun i hmem => h i (List.mem_cons_of_mem _ hmem)]
  | .name u inside :: E, h => by
    have hu : u ≠ t := by
      rintro rfl
      exact h inside List.mem_cons_self
    have ih : expand ts t E = E := expand_of_absent fun i hmem => h i (List.mem_cons_of_mem _ hmem)
    unfold expand at ih ⊢
    rw [fill_name, ih, valueIn_other fun heq => absurd heq hu]
    rfl

theorem expand_of_unselected {t : Template} (h : selectedTemplateValue t = none) : ∀ E : List Piece, expand ts t E = E
  | [] => rfl
  | .char c :: E => by rw [expand_char, expand_of_unselected h E]
  | .name u inside :: E => by
    have ih : expand ts t E = E := expand_of_unselected h E
    have hvalue : valueIn ts t (fun _ => true) u inside = none := by
      unfold valueIn
      rw [h]
      split_ifs <;> rfl
    unfold expand at ih ⊢
    rw [fill_name, ih, hvalue]
    rfl

theorem includes_of_mem {t : Template} {inside : Bool} {E : List Piece} (h : Piece.name t inside ∈ E) :
    includes (textOf E) t.tempVar.toList = true := by
  obtain ⟨A, B, rfl⟩ := List.append_of_mem h
  refine decide_eq_true ⟨textOf A, textOf B, ?_⟩
  rw [textOf_append, textOf_name, List.append_assoc]

theorem renderValue_of_quote {type : TemplateValueType} {q : Char} (h : quoteOf type = some q) (query name value : List Char) :
    renderValue query name value type =
      (do let r ← replaceAllRegex query name value; return replaceAll r name (quoted q value)) := by
  cases type <;> cases h <;> rfl

theorem renderValue_verbatim {type : TemplateValueType} (h : quoteOf type = none) (hknown : type ≠ .points)
    (query name value : List Char) : renderValue query name value type = pure (replaceAll query name value) := by
  cases type with
  | points => exact absurd rfl hknown
  | csv | constant | metaQuery | map => rfl
  | _ => cases h

section Selected

variable (hnames : ∀ t ∈ ts, t.tempVar.toList ≠ [])

include hnames

theorem textOf_valuePieces (inside : Bool) (v : TemplateValue) :
    textOf (valuePieces ts inside v) = wrap inside v.type v.value.toList := by
  unfold valuePieces wrap
  cases quoteOf v.type with
  | none => simp only [textOf_pieces ts hnames, List.drop_zero]
  | some q =>
    cases inside with
    | true => simp [textOf_pieces ts hnames]
    | false => simp [textOf_pieces ts hnames, quoted]

variable {t : Template} {v : TemplateValue} (hv : selectedTemplateValue t = some v)

include hv

theorem textOf_fillInside (hquote : quoteOf v.type ≠ none) : ∀ E : List Piece,
    textOf (fill (valueIn ts t id) E) = fillInside t v.value.toList E
  | [] => rfl
  | .char c :: E => congrArg (c :: ·) (textOf_fillInside hquote E)
  | .name u inside :: E => by
    have ih := textOf_fillInside hquote E
    rw [fill_name, textOf_append, fillInside_name, ih]
    congr 1
    by_cases hu : u = t ∧ inside = true
    · obtain ⟨rfl, rfl⟩ := hu
      obtain ⟨q, hq⟩ := Option.ne_none_iff_exists'.mp hquote
      rw [valueIn_self rfl, hv, Option.map_some, Option.getD_some, textOf_valuePieces hnames, if_pos ⟨rfl, rfl⟩]
      simp [wrap, hq]
    · rw [valueIn_other fun heq => Bool.eq_false_of_not_eq_true fun h => hu ⟨heq, h⟩, Option.getD_none, textOf_singleton, if_neg hu]

/-- The value for the names that are left. -/
theorem withName_fill (places : Bool → Bool) {new : List Char}
    (hnew : ∀ inside, places inside = false → new = wrap inside v.type v.value.toList) : ∀ E : List Piece,
    (∀ inside i, Piece.name t inside ∈ E → Piece.name t i ∉ valuePieces ts inside v) →
    withName t new (fill (valueIn ts t places) E) = textOf (expand ts t E)
  | [], _ => rfl
  | .char c :: E, hself =>
    congrArg (c :: ·) (withName_fill places hnew E fun inside i hmem => hself inside i (List.mem_cons_of_mem _ hmem))
  | .name u inside :: E, hself => by
    have ih := withName_fill places hnew E fun inside i hmem => hself inside i (List.mem_cons_of_mem _ hmem)
    unfold expand withName at ih ⊢
    rw [fill_name, List.flatMap_append, ih, fill_name, textOf_append]
    congr 1
    by_cases hu : u = t
    · subst hu
      have heverywhere : valueIn ts u (fun _ => true) u inside = some (valuePieces ts inside v) := by
        rw [valueIn_self rfl, hv, Option.map_some]
      rw [heverywhere, Option.getD_some]
      cases hplace : places inside with
      | true =>
        rw [valueIn_self hplace, hv, Option.map_some, Option.getD_some]
        refine List.flatMap_congr fun p hp => ?_
        cases p with
        | char c => rfl
        | name x i =>
          have hx : x ≠ u := by
            rintro rfl
            exact hself inside i List.mem_cons_self hp
          exact if_neg hx
      | false =>
        rw [valueIn_other fun _ => hplace, Option.getD_none, textOf_valuePieces hnames, ← hnew inside hplace]
        simp
    · rw [valueIn_other fun heq => absurd heq hu, valueIn_other fun heq => absurd heq hu, Option.getD_none, textOf_singleton]
      simp [hu]

end Selected

theorem replaceAll_eq {query name new : List Char} (h : name ≠ []) : replaceAll query name new = Replace.replaceAll name new query :=
  if_neg h

theorem fill_nowhere (t : Template) : ∀ E : List Piece, fill (valueIn ts t fun _ => false) E = E
  | [] => rfl
  | .char c :: E => by rw [fill_char, fill_nowhere t E]
  | .name u inside :: E => by
    rw [fill_name, fill_nowhere t E, valueIn_other fun _ => rfl]
    rfl

/-- A call of `renderTemplate` puts the value in for the names of the template. -/
theorem renderTemplate_textOf (hnames : ∀ t ∈ ts, t.tempVar.toList ≠ []) {t : Template} (ht : t ∈ ts) {E : List Piece}
    (hreadable : ∀ F, Expands ts E F → Readable ts F) (hself : t ∉ children ts t) :
    renderTemplate (textOf E) t = pure (textOf (expand ts t E)) := by
  have hname := hnames t ht
  have hE := hreadable E .refl
  unfold renderTemplate
  split_ifs with hempty hincludes
  · have hnone : selectedTemplateValue t = none := by
      rw [selectedTemplateValue, List.isEmpty_iff.mp hempty]
      rfl
    rw [expand_of_unselected hnone]
  · rw [expand_of_absent fun inside hmem => ?_]
    have hmem := includes_of_mem hmem
    simp [hmem] at hincludes
  · cases hv : selectedTemplateValue t with
    | none => simp only [expand_of_unselected hv]
    | some v =>
      have hselected : selectedTemplateValue t ≠ none := by rw [hv]; exact Option.some_ne_none v
      have hown : ∀ inside i, Piece.name t inside ∈ E → Piece.name t i ∉ valuePieces ts inside v :=
        fun inside i hmem hvalue => hself (hE.below t inside v t i hmem hv hvalue)
      cases hquote : quoteOf v.type with
      | some q =>
        have hsome : quoteOf v.type ≠ none := by rw [hquote]; exact Option.some_ne_none q
        have hF := hreadable _ (expands_fill ts t id E)
        have hregex := replaceAllRegex_textOf hname (hE.plain t ht v hv hsome) hE.marked (hE.clear t ht hselected)
          (hE.once t ht v hv hsome)
        rw [← textOf_fillInside hnames hv hsome] at hregex
        have hnew : ∀ inside, id inside = false → quoted q v.value.toList = wrap inside v.type v.value.toList := by
          rintro inside rfl
          simp [wrap, hquote]
        simp only
        rw [renderValue_of_quote hquote, hregex, ← withName_fill hnames hv id hnew E hown,
          ← replaceAll_textOf hname _ (hF.clear t ht hselected), ← replaceAll_eq hname]
        rfl
      | none =>
        by_cases hknown : v.type = .points
        · simp only
          rw [expand_of_absent fun inside hmem => hE.known t inside v hmem hv hknown, hknown]
          rfl
        · have hnew : ∀ inside, false = false → v.value.toList = wrap inside v.type v.value.toList := fun inside _ => by
            simp [wrap, hquote]
          have hall := withName_fill hnames hv (fun _ => false) hnew E hown
          rw [fill_nowhere] at hall
          simp only
          rw [renderValue_verbatim hquote hknown, replaceAll_eq hname, replaceAll_textOf hname _ (hE.clear t ht hselected), hall]

/-! ### All of them -/

theorem foldlM_renderTemplate (hnames : ∀ t ∈ ts, t.tempVar.toList ≠ []) (hself : ∀ t ∈ ts, t ∉ children ts t) :
    ∀ {order : List Template} {E : List Piece}, order ⊆ ts → (∀ F, Expands ts E F → Readable ts F) →
      order.foldlM renderTemplate (textOf E) = pure (textOf (order.foldl (fun E t => expand ts t E) E))
  | [], E, _, _ => rfl
  | t :: order, E, hsub, hreadable => by
    rw [List.cons_subset] at hsub
    rw [List.foldlM_cons, renderTemplate_textOf hnames hsub.1 hreadable (hself t hsub.1)]
    exact foldlM_renderTemplate hnames hself hsub.2 fun F hF =>
      hreadable F ((expands_fill ts t (fun _ => true) E).trans hF)

theorem rendering_of_unselected : ∀ {n : ℕ} {E : List Piece}, (∀ u inside, Piece.name u inside ∈ E → selectedTemplateValue u = none) →
    rendering ts n E = textOf E
  | 0, _, _ => rfl
  | n + 1, E, h => by
    unfold rendering textOf
    refine List.flatMap_congr fun p hp => ?_
    cases p with
    | char c => rfl
    | name u inside => simp only [h u inside hp, Piece.text]

theorem rendering_valuePieces (ts : List Template) (n : ℕ) (inside : Bool) (v : TemplateValue) :
    rendering ts n (valuePieces ts inside v) = wrap inside v.type (rendering ts n (pieces ts (placeOf inside) 0 v.value.toList)) := by
  unfold valuePieces wrap
  cases quoteOf v.type with
  | none => rfl
  | some q =>
    cases inside with
    | true => rfl
    | false =>
      cases n with
      | zero => simp [rendering, textOf, quoted, Piece.text]
      | succ n => simp [rendering, quoted]

/-- What holds of a text however names are put in holds of its parts. -/
theorem below_of_context {P E S : List Piece} (h : ∀ F, Expands ts (P ++ E ++ S) F → Below ts F) :
    ∀ F, Expands ts E F → Below ts F := by
  intro F hF t inside v u i hmem
  refine h (P ++ F ++ S) (hF.context P S) t inside v u i ?_
  exact List.mem_append_left _ (List.mem_append_right _ hmem)

theorem exists_valuePieces_eq (ts : List Template) (inside : Bool) (v : TemplateValue) :
    ∃ L R, valuePieces ts inside v = L ++ pieces ts (placeOf inside) 0 v.value.toList ++ R := by
  unfold valuePieces
  cases quoteOf v.type with
  | none => exact ⟨[], [], by simp⟩
  | some q =>
    cases inside with
    | true => exact ⟨[], [], by simp⟩
    | false => exact ⟨[.char q], [.char q], by simp⟩

theorem Closed.cons_reverse {t : Template} {order : List Template} (h : Closed (children ts) (t :: order).reverse) :
    Closed (children ts) order.reverse ∧ ∀ c ∈ children ts t, c ∈ order := by
  rw [List.reverse_cons] at h
  refine ⟨fun l₁ a l₂ heq => h l₁ a (l₂ ++ [t]) (by rw [heq]; simp), fun c hc => ?_⟩
  exact List.mem_reverse.mp (h order.reverse t [] rfl c hc)

/-- A name in a text where one template was put in was there, or it is in the value. -/
theorem mem_expand {t u : Template} {i : Bool} {E : List Piece} (h : Piece.name u i ∈ expand ts t E) :
    (Piece.name u i ∈ E ∧ (u = t → selectedTemplateValue t = none)) ∨
      ∃ inside v, Piece.name t inside ∈ E ∧ selectedTemplateValue t = some v ∧ Piece.name u i ∈ valuePieces ts inside v := by
  obtain ⟨p, hp, hmem⟩ := List.mem_flatMap.mp h
  cases p with
  | char c => cases List.mem_singleton.mp hmem
  | name x inside =>
    by_cases hx : x = t
    · subst hx
      cases hv : selectedTemplateValue x with
      | none =>
        simp only [valueIn, hv, Option.map_none, ite_self, Option.getD_none, List.mem_singleton] at hmem
        cases hmem
        exact .inl ⟨hp, fun _ => rfl⟩
      | some v =>
        simp only [valueIn, hv, Option.map_some, and_self, if_true, Option.getD_some] at hmem
        exact .inr ⟨inside, v, hp, rfl, hmem⟩
    · simp only [valueIn_other fun heq => absurd heq hx, Option.getD_none, List.mem_singleton] at hmem
      cases hmem
      exact .inl ⟨hp, fun heq => absurd heq hx⟩

/-- Rendering goes on from where a value is put in, if values are rendered far enough. -/
theorem rendering_expand {t : Template} {n : ℕ} {E : List Piece} (h : ∀ inside v, Piece.name t inside ∈ E →
      selectedTemplateValue t = some v → rendering ts n (pieces ts (placeOf inside) 0 v.value.toList) =
        rendering ts (n + 1) (pieces ts (placeOf inside) 0 v.value.toList)) :
    rendering ts (n + 1) E = rendering ts (n + 1) (expand ts t E) := by
  unfold expand fill
  conv_lhs => rw [rendering]
  conv_rhs => rw [rendering, List.flatMap_assoc]
  refine List.flatMap_congr fun p hp => ?_
  cases p with
  | char c => rfl
  | name u inside =>
    by_cases hu : u = t
    · subst hu
      cases hv : selectedTemplateValue u with
      | none => simp [valueIn, hv]
      | some v =>
        have hvalue := rendering_valuePieces ts (n + 1) inside v
        rw [← h inside v hp hv] at hvalue
        simp only [valueIn, hv, Option.map_some, and_self, if_true, Option.getD_some, ← hvalue]
        rw [rendering]
    · simp only [valueIn_other fun heq => absurd heq hu, Option.getD_none, List.flatMap_singleton]

/-- In an order in which each comes before those it depends on, the templates put
in one after the other are what rendering is. -/
theorem rendering_eq_foldl : ∀ {order : List Template}, Closed (children ts) order.reverse → ∀ {n : ℕ} {E : List Piece},
    order.length ≤ n → (∀ F, Expands ts E F → Below ts F) →
      (∀ u inside, Piece.name u inside ∈ E → selectedTemplateValue u ≠ none → u ∈ order) →
      rendering ts n E = textOf (order.foldl (fun E t => expand ts t E) E)
  | [], _, n, E, _, _, hin => by
    refine rendering_of_unselected fun u inside hmem => ?_
    by_contra hne
    exact List.not_mem_nil (hin u inside hmem hne)
  | t :: order, hclosed, 0, E, hlen, _, _ => absurd hlen (Nat.not_succ_le_zero _)
  | t :: order, hclosed, n + 1, E, hlen, hbelow, hin => by
    obtain ⟨hclosed, hchildren⟩ := Closed.cons_reverse hclosed
    have hle : order.length ≤ n := Nat.le_of_succ_le_succ hlen
    have hexpand := expands_fill ts t (fun _ => true) E
    have hvalue : ∀ inside v u i, Piece.name t inside ∈ E → selectedTemplateValue t = some v →
        Piece.name u i ∈ valuePieces ts inside v → u ∈ order :=
      fun inside v u i hmem hv hu => hchildren u (hbelow E .refl t inside v u i hmem hv hu)
    have hnext : ∀ u i, Piece.name u i ∈ expand ts t E → selectedTemplateValue u ≠ none → u ∈ order := by
      intro u i hmem hu
      rcases mem_expand hmem with ⟨hE, hnone⟩ | ⟨inside, v, hE, hv, hmem⟩
      · exact (List.mem_cons.mp (hin u i hE hu)).resolve_left fun heq => hu (heq ▸ hnone heq)
      · exact hvalue inside v u i hE hv hmem
    have hfar : ∀ inside v, Piece.name t inside ∈ E → selectedTemplateValue t = some v →
        rendering ts n (pieces ts (placeOf inside) 0 v.value.toList) =
          rendering ts (n + 1) (pieces ts (placeOf inside) 0 v.value.toList) := by
      intro inside v hE hv
      obtain ⟨L, R, hcontext⟩ := exists_valuePieces_eq ts inside v
      obtain ⟨A, B, rfl⟩ := List.append_of_mem hE
      have hput : Expands ts (A ++ .name t inside :: B) ((A ++ L) ++ pieces ts (placeOf inside) 0 v.value.toList ++ (R ++ B)) := by
        have hstep : Expand ts (A ++ .name t inside :: B) (A ++ valuePieces ts inside v ++ B) := .name A B t inside v hv
        rw [hcontext] at hstep
        exact .single (by simpa using hstep)
      have hbelow' := below_of_context fun F hF => hbelow F (hput.trans hF)
      have hin' : ∀ u i, Piece.name u i ∈ pieces ts (placeOf inside) 0 v.value.toList → selectedTemplateValue u ≠ none → u ∈ order :=
        fun u i hmem _ => hvalue inside v u i hE hv (by rw [hcontext]; simp [hmem])
      rw [rendering_eq_foldl hclosed hle hbelow' hin', rendering_eq_foldl hclosed (Nat.le_succ_of_le hle) hbelow' hin']
    rw [List.foldl_cons, rendering_expand hfar]
    exact rendering_eq_foldl hclosed (Nat.le_succ_of_le hle) (fun F hF => hbelow F (hexpand.trans hF)) hnext

/-! ### Any order of the list -/

section Order

variable {ts' : List Template} (hperm : ts'.Perm ts) (hapart : ∀ t ∈ ts, ∀ u ∈ ts, t.tempVar.toList <:+: u.tempVar.toList → t = u)

include hperm

theorem mem_children_perm {t c : Template} : c ∈ children ts' t ↔ c ∈ children ts t := by
  rw [mem_children, mem_children, mem_nodes, mem_nodes, hperm.mem_iff]

include hapart

/-- At most one name begins at a place, so the first one found is the only one. -/
theorem find_perm (s : List Char) : ts'.find? (fun t => t.tempVar.toList.isPrefixOf s) =
    ts.find? (fun t => t.tempVar.toList.isPrefixOf s) := by
  have hunique : ∀ t ∈ ts, ∀ u ∈ ts, t.tempVar.toList.isPrefixOf s = true → u.tempVar.toList.isPrefixOf s = true → t = u := by
    intro t ht u hu hts hus
    rcases List.prefix_or_prefix_of_prefix (List.isPrefixOf_iff_prefix.mp hts) (List.isPrefixOf_iff_prefix.mp hus) with h | h
    · exact hapart t ht u hu h.isInfix
    · exact (hapart u hu t ht h.isInfix).symm
  cases hfound : ts.find? fun t => t.tempVar.toList.isPrefixOf s with
  | none =>
    rw [List.find?_eq_none] at hfound ⊢
    exact fun t ht => hfound t (hperm.mem_iff.mp ht)
  | some t =>
    have ht := List.mem_of_find?_eq_some hfound
    have hts : t.tempVar.toList.isPrefixOf s = true := List.find?_some (p := fun t : Template => t.tempVar.toList.isPrefixOf s) hfound
    cases hother : ts'.find? fun t => t.tempVar.toList.isPrefixOf s with
    | none => exact absurd hts (List.find?_eq_none.mp hother t (hperm.mem_iff.mpr ht))
    | some u =>
      have hus : u.tempVar.toList.isPrefixOf s = true := List.find?_some (p := fun t : Template => t.tempVar.toList.isPrefixOf s) hother
      rw [hunique u (hperm.mem_iff.mp (List.mem_of_find?_eq_some hother)) t ht hus hts]

theorem pieces_perm : pieces ts' = pieces ts := by
  funext p k s
  fun_induction pieces ts p k s with
  | case1 p k => rw [pieces]
  | case2 p k c s ih => rw [pieces, ih]
  | case3 p c s t hfind ih => rw [pieces, find_perm hperm hapart, hfind]; simp only [ih]
  | case4 p c s hfind ih => rw [pieces, find_perm hperm hapart, hfind]; simp only [ih]

theorem valuePieces_perm : valuePieces ts' = valuePieces ts := by
  funext inside v
  unfold valuePieces
  rw [pieces_perm hperm hapart]

theorem rendering_perm : ∀ (n : ℕ) (E : List Piece), rendering ts' n E = rendering ts n E
  | 0, _ => rfl
  | n + 1, E => by
    unfold rendering
    rw [pieces_perm hperm hapart]
    simp only [rendering_perm n]

theorem expands_perm {E F : List Piece} (h : Expands ts' E F) : Expands ts E F := by
  induction h with
  | refl => exact .refl
  | tail _ hstep ih =>
    refine ih.tail ?_
    obtain ⟨E₁, E₂, t, inside, v, hv⟩ := hstep
    rw [valuePieces_perm hperm hapart]
    exact .name E₁ E₂ t inside v hv

theorem Readable.perm {E : List Piece} (h : Readable ts E) : Readable ts' E where
  marked := h.marked
  clear t ht := h.clear t (hperm.mem_iff.mp ht)
  once t ht := h.once t (hperm.mem_iff.mp ht)
  plain t ht := h.plain t (hperm.mem_iff.mp ht)
  known := h.known
  below t inside v u i hmem hv hu := by
    rw [valuePieces_perm hperm hapart] at hu
    exact (mem_children_perm hperm).mpr (h.below t inside v u i hmem hv hu)

end Order

/-! ### The claim of the whole -/

theorem templateReplace_eq (hnames : ∀ t ∈ ts, t.tempVar.toList ≠ []) {g : List Template} (hgraph : graphFromTemplates ts = .ok g)
    {query : List Char} (hreadable : ∀ E, Expands ts (pieces ts .outside 0 query) E → Readable ts E) :
    templateReplace query ts = some (.ok (rendering ts ts.length (pieces ts .outside 0 query))) := by
  obtain ⟨-, hacyclic, -⟩ := graphFromTemplates_iff.mp hgraph
  obtain ⟨hnodup, hclosed, hmem⟩ := postorder_spec (children_closed ts) hacyclic
  have hsub : topologicalSort ts ⊆ ts := fun t ht => mem_nodes.mp ((hmem t).mp (List.mem_reverse.mp ht))
  have hself : ∀ t ∈ ts, t ∉ children ts t := fun t ht hchild =>
    not_below_self (hacyclic t (mem_nodes.mpr ht)) (Relation.TransGen.single hchild)
  have hall : ∀ t ∈ ts, t ∈ topologicalSort ts := fun t ht => List.mem_reverse.mpr ((hmem t).mpr (mem_nodes.mpr ht))
  have hlength : (topologicalSort ts).length ≤ ts.length :=
    ((List.nodup_reverse.mpr hnodup).subperm hsub).length_le
  have hrun := foldlM_renderTemplate hnames hself hsub hreadable
  rw [textOf_pieces ts hnames, List.drop_zero] at hrun
  have horder : Closed (children ts) (topologicalSort ts).reverse := by
    unfold topologicalSort
    rwa [List.reverse_reverse]
  have hrendering := rendering_eq_foldl horder hlength (fun F hF => (hreadable F hF).below)
    fun u i hu _ => hall u (mem_of_name_mem_pieces hu)
  rw [hrendering]
  unfold templateReplace sortTemplates
  rw [hgraph]
  exact hrun

def hosts : Template :=
  ⟨"1", ":h:", [⟨"x", .tagValue, true, true, none⟩], .tagValues,
    some ⟨some "db", some "cpu", some "host", "SHOW TAG VALUES ON :database: FROM :measurement: WITH KEY=:tagKey:"⟩⟩

def groups : Template := ⟨"2", ":g:", [⟨"x|:h:", .csv, true, false, none⟩], .csv, none⟩

theorem replaceAllRegexFrom_end {search replacement result : List Char} {i : ℕ} (h : ¬ i + 1 < result.length) :
    replaceAllRegexFrom search replacement result i = pure result := by
  rw [replaceAllRegexFrom, if_neg h]

end Templates
end Chronograf
