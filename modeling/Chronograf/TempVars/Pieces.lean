/-
# Texts with the names of templates in them

A query, or a value, is read as characters and names of templates, each name
within a regular expression or not. To render it means to put the selected value
of each template in for its name, the value being rendered in the same way, and
to quote it outside of regular expressions.

Names may be put in one by one. A text so obtained is readable if names are only
where they were read, and if the regular expressions are where they were.

Key definitions: `Piece`, `pieces`, `rendering`, `Expands`, `Marked`, `Clear`,
`Once`, `Plain`, `Readable`.
Key theorems: `textOf_pieces`, `replaceAll_textOf`, `expands_fill`.
-/
import Chronograf.TempVars.Replace
import Mathlib.Logic.Relation

namespace Chronograf
namespace Templates

inductive Place
  | outside
  | waiting
  | inside
  deriving DecidableEq

/-- A character, or the name of a template, within a regular expression or not. -/
inductive Piece
  | char (c : Char)
  | name (t : Template) (inside : Bool)
  deriving DecidableEq

def Piece.text : Piece → List Char
  | char c => [c]
  | name t _ => t.tempVar.toList

def textOf (E : List Piece) : List Char := E.flatMap Piece.text

local instance lawfulBEqComparator : LawfulBEq (List Char) := inferInstance

/-- A comparison with a regular expression begins here. -/
def comparator (s : List Char) : Bool := s.take 2 ∈ [['=', '~'], ['!', '~']]

/-- The place after the first character of a text. -/
def Place.next (s : List Char) : Place → Place
  | outside => if comparator s then waiting else outside
  | waiting => if s.head? = some '/' then inside else waiting
  | inside => if s.head? = some '/' then outside else inside

/-- The text read from a place on, of which `k` characters belong to the last name. -/
def pieces (ts : List Template) : Place → ℕ → List Char → List Piece
  | _, _, [] => []
  | p, k + 1, _ :: s => pieces ts p k s
  | p, 0, c :: s =>
    match ts.find? fun t => t.tempVar.toList.isPrefixOf (c :: s) with
    | some t => .name t (p = .inside) :: pieces ts p (t.tempVar.toList.length - 1) s
    | none => .char c :: pieces ts (p.next (c :: s)) 0 s

/-! ### Rendering -/

/-- The quotes that a value stands in. -/
def quoteOf : TemplateValueType → Option Char
  | .tagKey | .fieldKey | .measurement | .database => some '"'
  | .tagValue | .timeStamp => some apostrophe
  | .csv | .constant | .metaQuery | .map | .points => none

/-- A value as it stands in the text. -/
def wrap (inside : Bool) (type : TemplateValueType) (value : List Char) : List Char :=
  match quoteOf type with
  | some q => if inside then value else quoted q value
  | none => value

def placeOf (inside : Bool) : Place := if inside then .inside else .outside

/-- The value of a template for its name. -/
def valuePieces (ts : List Template) (inside : Bool) (v : TemplateValue) : List Piece :=
  let E := pieces ts (placeOf inside) 0 v.value.toList
  match quoteOf v.type with
  | some q => if inside then E else .char q :: E ++ [.char q]
  | none => E

/-- Every name is replaced by the selected value, which is rendered in the same way. -/
def rendering (ts : List Template) : ℕ → List Piece → List Char
  | 0, E => textOf E
  | n + 1, E => E.flatMap fun
    | .char c => [c]
    | .name t inside =>
      match selectedTemplateValue t with
      | none => t.tempVar.toList
      | some v => wrap inside v.type (rendering ts n (pieces ts (placeOf inside) 0 v.value.toList))

/-! ### Names one by one -/

/-- One name is replaced by its value. -/
inductive Expand (ts : List Template) : List Piece → List Piece → Prop
  | name (E₁ E₂ : List Piece) (t : Template) (inside : Bool) (v : TemplateValue) (h : selectedTemplateValue t = some v) :
    Expand ts (E₁ ++ .name t inside :: E₂) (E₁ ++ valuePieces ts inside v ++ E₂)

def Expands (ts : List Template) : List Piece → List Piece → Prop := Relation.ReflTransGen (Expand ts)

/-- The name of the template occurs only where it was read. -/
def Clear (t : Template) : List Piece → Prop
  | [] => True
  | .char c :: E => ¬ t.tempVar.toList <+: c :: textOf E ∧ Clear t E
  | .name u _ :: E =>
    (u = t ∨ ∀ i < u.tempVar.toList.length, ¬ t.tempVar.toList <+: (u.tempVar.toList ++ textOf E).drop i) ∧ Clear t E

/-- The names are within regular expressions, or not, as it was read. -/
def Marked : Place → List Piece → Prop
  | p, [] => p = .outside
  | p, .char c :: E => Marked (p.next (c :: textOf E)) E
  | .outside, .name t inside :: E => inside = false ∧
    (∀ i < t.tempVar.toList.length, comparator ((t.tempVar.toList ++ textOf E).drop i) = false) ∧ Marked .outside E
  | .waiting, .name t inside :: E => inside = false ∧ '/' ∉ t.tempVar.toList ∧ Marked .waiting E
  | .inside, .name t inside :: E => inside = true ∧ '/' ∉ t.tempVar.toList ∧ Marked .inside E

/-- No regular expression has the name twice; `seen` tells whether it was there already. -/
def Once (t : Template) : Bool → List Piece → Prop
  | _, [] => True
  | seen, .char c :: E => Once t (seen && c ≠ '/') E
  | seen, .name u inside :: E => ¬ (seen = true ∧ u = t ∧ inside = true) ∧ Once t (seen || (u = t && inside)) E

/-- `replace` takes the value as it is. -/
def NoPattern (value : List Char) : Prop := ∀ d ∈ [dollar, ampersand, backquote, apostrophe], ¬ [dollar, d] <:+: value

/-- No comparison with a regular expression begins in the text. -/
def NoComparison (s : List Char) : Prop := ∀ i, comparator (s.drop i) = false

/-- Within regular expressions the value is put in as it is, and with a slash in
it no comparison begins between that slash and the end of the regular expression. -/
def Plain (t : Template) (value : List Char) (E : List Piece) : Prop :=
  ∀ A B, E = A ++ .name t true :: B → NoPattern value ∧
    ('/' ∈ value → NoComparison (value.dropWhile (· ≠ '/') ++ (textOf B).takeWhile (· ≠ '/')))

/-- Every name in a value is one that the template depends on. -/
def Below (ts : List Template) (E : List Piece) : Prop :=
  ∀ t inside v u i, .name t inside ∈ E → selectedTemplateValue t = some v → .name u i ∈ valuePieces ts inside v → u ∈ children ts t

/-- A text of which each template can be rendered. -/
structure Readable (ts : List Template) (E : List Piece) : Prop where
  marked : Marked .outside E
  clear : ∀ t ∈ ts, selectedTemplateValue t ≠ none → Clear t E
  once : ∀ t ∈ ts, ∀ v, selectedTemplateValue t = some v → quoteOf v.type ≠ none → Once t false E
  plain : ∀ t ∈ ts, ∀ v, selectedTemplateValue t = some v → quoteOf v.type ≠ none → Plain t v.value.toList E
  known : ∀ t inside v, .name t inside ∈ E → selectedTemplateValue t = some v → v.type ≠ .points
  below : Below ts E

instance decidableClear (t : Template) : ∀ E, Decidable (Clear t E)
  | [] => isTrue trivial
  | .char _ :: E => haveI := decidableClear t E; inferInstanceAs (Decidable (_ ∧ _))
  | .name _ _ :: E => haveI := decidableClear t E; inferInstanceAs (Decidable (_ ∧ _))

instance decidableMarked : ∀ p E, Decidable (Marked p E)
  | p, [] => inferInstanceAs (Decidable (p = .outside))
  | .outside, .char c :: E => decidableMarked (Place.outside.next (c :: textOf E)) E
  | .waiting, .char c :: E => decidableMarked (Place.waiting.next (c :: textOf E)) E
  | .inside, .char c :: E => decidableMarked (Place.inside.next (c :: textOf E)) E
  | .outside, .name _ _ :: E => haveI := decidableMarked .outside E; inferInstanceAs (Decidable (_ ∧ _ ∧ _))
  | .waiting, .name _ _ :: E => haveI := decidableMarked .waiting E; inferInstanceAs (Decidable (_ ∧ _ ∧ _))
  | .inside, .name _ _ :: E => haveI := decidableMarked .inside E; inferInstanceAs (Decidable (_ ∧ _ ∧ _))

instance decidableOnce (t : Template) : ∀ seen E, Decidable (Once t seen E)
  | _, [] => isTrue trivial
  | seen, .char c :: E => decidableOnce t (seen && c ≠ '/') E
  | seen, .name u inside :: E => haveI := decidableOnce t (seen || (u = t && inside)) E; inferInstanceAs (Decidable (_ ∧ _))

instance (value : List Char) : Decidable (NoPattern value) :=
  inferInstanceAs (Decidable (∀ d ∈ [dollar, ampersand, backquote, apostrophe], ¬ [dollar, d] <:+: value))

/-! ### Reading -/

@[simp] theorem textOf_nil : textOf [] = [] := rfl

@[simp] theorem textOf_char (c : Char) (E : List Piece) : textOf (.char c :: E) = c :: textOf E := rfl

@[simp] theorem textOf_name (t : Template) (inside : Bool) (E : List Piece) :
    textOf (.name t inside :: E) = t.tempVar.toList ++ textOf E := rfl

@[simp] theorem textOf_append (E F : List Piece) : textOf (E ++ F) = textOf E ++ textOf F := List.flatMap_append

/-- What is read is the text. -/
theorem textOf_pieces (ts : List Template) (hnames : ∀ t ∈ ts, t.tempVar.toList ≠ []) (p : Place) (k : ℕ) (s : List Char) :
    textOf (pieces ts p k s) = s.drop k := by
  fun_induction pieces ts p k s with
  | case1 p k => simp
  | case2 p k c s ih => rw [ih, List.drop_succ_cons]
  | case3 p c s t hfind ih =>
    have hprefix : t.tempVar.toList.isPrefixOf (c :: s) = true :=
      List.find?_some (p := fun t : Template => t.tempVar.toList.isPrefixOf (c :: s)) hfind
    obtain ⟨rest, hrest⟩ := List.isPrefixOf_iff_prefix.mp hprefix
    obtain ⟨d, name, hname⟩ := List.exists_cons_of_ne_nil (hnames t (List.mem_of_find?_eq_some hfind))
    rw [textOf_name, ih, ← hrest, hname]
    rw [hname, List.cons_append] at hrest
    obtain ⟨-, rfl⟩ := List.cons.inj hrest
    simp
  | case4 p c s hfind ih => rw [textOf_char, ih, List.drop_zero, List.drop_zero]

theorem mem_of_name_mem_pieces {ts : List Template} {p : Place} {k : ℕ} {s : List Char} {t : Template} {inside : Bool}
    (h : Piece.name t inside ∈ pieces ts p k s) : t ∈ ts := by
  fun_induction pieces ts p k s with
  | case1 p k => exact absurd h List.not_mem_nil
  | case2 p k c s ih => exact ih h
  | case3 p c s u hfind ih =>
    rcases List.mem_cons.mp h with heq | h
    · cases heq
      exact List.mem_of_find?_eq_some hfind
    · exact ih h
  | case4 p c s hfind ih =>
    rcases List.mem_cons.mp h with heq | h
    · cases heq
    · exact ih h

/-! ### Filling in -/

/-- Some names are replaced by other pieces. -/
def fill (g : Template → Bool → Option (List Piece)) (E : List Piece) : List Piece :=
  E.flatMap fun
    | .char c => [.char c]
    | .name u inside => (g u inside).getD [.name u inside]

/-- The value of a template, for its names in some places. -/
def valueIn (ts : List Template) (t : Template) (places : Bool → Bool) (u : Template) (inside : Bool) : Option (List Piece) :=
  if u = t ∧ places inside then (selectedTemplateValue t).map (valuePieces ts inside) else none

@[simp] theorem fill_char (g : Template → Bool → Option (List Piece)) (c : Char) (E : List Piece) :
    fill g (.char c :: E) = .char c :: fill g E := rfl

@[simp] theorem fill_name (g : Template → Bool → Option (List Piece)) (u : Template) (inside : Bool) (E : List Piece) :
    fill g (.name u inside :: E) = (g u inside).getD [.name u inside] ++ fill g E := rfl

theorem fill_append (g : Template → Bool → Option (List Piece)) (E F : List Piece) : fill g (E ++ F) = fill g E ++ fill g F :=
  List.flatMap_append

theorem expand_iff {ts : List Template} {E F : List Piece} : Expand ts E F ↔ ∃ E₁ t inside E₂ v, selectedTemplateValue t = some v ∧
    E = E₁ ++ .name t inside :: E₂ ∧ F = E₁ ++ valuePieces ts inside v ++ E₂ := by
  constructor
  · rintro ⟨E₁, E₂, t, inside, v, hv⟩
    exact ⟨E₁, t, inside, E₂, v, hv, rfl, rfl⟩
  · rintro ⟨E₁, t, inside, E₂, v, hv, rfl, rfl⟩
    exact .name E₁ E₂ t inside v hv

theorem expand_nil_iff {ts : List Template} {F : List Piece} : ¬ Expand ts [] F := by
  rw [expand_iff]
  rintro ⟨E₁, t, inside, E₂, v, -, h, -⟩
  simp at h

theorem expand_char_iff {ts : List Template} {c : Char} {E F : List Piece} :
    Expand ts (.char c :: E) F ↔ ∃ F', Expand ts E F' ∧ F = .char c :: F' := by
  constructor
  · intro h
    obtain ⟨E₁, t, inside, E₂, v, hv, hE, rfl⟩ := expand_iff.mp h
    obtain ⟨-, heq⟩ | ⟨E₁, rfl, rfl⟩ := List.cons_eq_append_iff.mp hE
    · cases heq
    · exact ⟨_, .name E₁ E₂ t inside v hv, by simp⟩
  · rintro ⟨F', h, rfl⟩
    obtain ⟨E₁, E₂, t, inside, v, hv⟩ := h
    exact .name (.char c :: E₁) E₂ t inside v hv

theorem expand_name_iff {ts : List Template} {t : Template} {inside : Bool} {E F : List Piece} :
    Expand ts (.name t inside :: E) F ↔
      (∃ v, selectedTemplateValue t = some v ∧ F = valuePieces ts inside v ++ E) ∨ ∃ F', Expand ts E F' ∧ F = .name t inside :: F' := by
  constructor
  · intro h
    obtain ⟨E₁, u, i, E₂, v, hv, hE, rfl⟩ := expand_iff.mp h
    obtain ⟨rfl, heq⟩ | ⟨E₁, rfl, rfl⟩ := List.cons_eq_append_iff.mp hE
    · cases heq
      exact .inl ⟨v, hv, rfl⟩
    · exact .inr ⟨_, .name E₁ E₂ u i v hv, by simp⟩
  · rintro (⟨v, hv, rfl⟩ | ⟨F', h, rfl⟩)
    · exact .name [] E t inside v hv
    · obtain ⟨E₁, E₂, u, i, v, hv⟩ := h
      exact .name (.name t inside :: E₁) E₂ u i v hv

theorem Expands.context {ts : List Template} {E F : List Piece} (h : Expands ts E F) (P S : List Piece) :
    Expands ts (P ++ E ++ S) (P ++ F ++ S) := by
  induction h with
  | refl => exact .refl
  | tail _ hstep ih =>
    refine ih.tail ?_
    obtain ⟨E₁, E₂, t, inside, v, hv⟩ := hstep
    have hexpand : Expand ts ((P ++ E₁) ++ .name t inside :: (E₂ ++ S)) ((P ++ E₁) ++ valuePieces ts inside v ++ (E₂ ++ S)) :=
      .name (P ++ E₁) (E₂ ++ S) t inside v hv
    simpa only [List.append_assoc, List.cons_append] using hexpand

/-- The names of a template may be replaced at once. -/
theorem expands_fill (ts : List Template) (t : Template) (places : Bool → Bool) (E : List Piece) :
    Expands ts E (fill (valueIn ts t places) E) := by
  induction E with
  | nil => exact .refl
  | cons p E ih =>
    have hrest : Expands ts (p :: E) (p :: fill (valueIn ts t places) E) := by
      have hcontext := ih.context [p] []
      simpa only [List.append_nil, List.singleton_append] using hcontext
    cases p with
    | char c => exact hrest
    | name u inside =>
      rw [fill_name]
      cases hvalue : valueIn ts t places u inside with
      | none => exact hrest
      | some F =>
        unfold valueIn at hvalue
        split_ifs at hvalue with hu
        obtain ⟨v, hv, rfl⟩ := Option.map_eq_some_iff.mp hvalue
        obtain ⟨rfl, -⟩ := hu
        exact hrest.tail (.name [] (fill (valueIn ts u places) E) u inside v hv)

/-- The text with another one in for the name of a template. -/
def withName (t : Template) (new : List Char) (E : List Piece) : List Char :=
  E.flatMap fun
    | .char c => [c]
    | .name u _ => if u = t then new else u.tempVar.toList

/-- What replacing every occurrence of a name does to a text. -/
theorem replaceAll_textOf {t : Template} (hname : t.tempVar.toList ≠ []) (new : List Char) {E : List Piece} (h : Clear t E) :
    Replace.replaceAll t.tempVar.toList new (textOf E) = withName t new E := by
  unfold Replace.replaceAll
  induction E with
  | nil => rfl
  | cons p E ih =>
    cases p with
    | char c =>
      obtain ⟨hc, hE⟩ := h
      rw [textOf_char, Replace.replaceFrom_of_no_match hc, ih hE]
      rfl
    | name u inside =>
      obtain ⟨hu, hE⟩ := h
      unfold withName at ih ⊢
      rw [textOf_name, List.flatMap_cons, ← ih hE]
      by_cases heq : u = t
      · subst heq
        obtain ⟨d, name, hd⟩ := List.exists_cons_of_ne_nil hname
        have hmatch : u.tempVar.toList <+: d :: (name ++ textOf E) := hd ▸ List.prefix_append _ _
        have hsplit : u.tempVar.toList ++ textOf E = d :: (name ++ textOf E) := by rw [hd, List.cons_append]
        have hlength : u.tempVar.toList.length - 1 = name.length := by rw [hd, List.length_cons, Nat.add_sub_cancel]
        simp only [if_true]
        rw [hsplit, Replace.replaceFrom_of_match hmatch, hlength, Replace.replaceFrom_skip]
      · simp only [if_neg heq]
        exact Replace.replaceFrom_keep (hu.resolve_left heq)

end Templates
end Chronograf
