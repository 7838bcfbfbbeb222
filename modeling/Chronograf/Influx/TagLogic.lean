/-
# The tags of a query config and the condition of its query

Of a condition that is read as filters of tags, the AND/OR tree gets lost: the
config says of each tag that it is one of the values it is compared with, or
none of them. When that is what the condition means, apart from its bounds on
the time before now, is decided for every tree. With `=` it has to be a
product: whatever value of each tag is chosen, one alternative of the condition
asks for nothing else, and every alternative that can hold names every tag. With
`!=` no comparison may be dispensable. The condition is the one `Reduce` yields,
which is taken to mean what it is given.

Key definitions: `remaining`, `Point.satisfies`, `QueryConfig.tells`, `IsProduct`, `IsExclusion`.
Key theorems: `tagLogic_of_isTagLogic`, `product_iff`, `exclusion_iff`, `faithful_iff`.
-/
import Chronograf.Influx.Convert
import Chronograf.Lib.Formula
import Mathlib.Data.Fintype.EquivFin
import Mathlib.Data.List.Sections

namespace Chronograf
namespace Influx

open Influxql

/-! ### What a condition means -/

/-- A reference to a tag: not to the time, nor by its type to a field. -/
def isTag (name : String) (type : DataType) : Bool := (type = .unknown ∨ type = .tag) ∧ toLower name ≠ "time"

/-- A part of a condition that is neither AND nor OR: a tag compared with a
value, or any other expression. -/
inductive Atom
  | tag (f : TagFilter)
  | other (e : Expr)

def atomOf (e : Expr) : Atom :=
  match e with
  | .binary op (.varRef t type) (.string v) | .binary op (.string v) (.varRef t type) =>
    match filterOp op, isTag t type with
    | some o, true => .tag ⟨o, t, v⟩
    | _, _ => .other e
  | _ => .other e

def mentionsNow : Expr → Bool
  | .paren e => mentionsNow e
  | .binary _ lhs rhs => mentionsNow lhs || mentionsNow rhs
  | e => isNow e

/-- A bound of the time that is told from now. -/
def isRelativeBound : Expr → Bool
  | .binary op lhs rhs => isOrdering op && (isTime lhs && mentionsNow rhs || mentionsNow lhs && isTime rhs)
  | _ => false

/-- What is left of two sides together. -/
def combine (f : Formula Atom → Formula Atom → Formula Atom) : Option (Formula Atom) → Option (Formula Atom) →
    Option (Formula Atom)
  | some φ, some ψ => some (f φ ψ)
  | some φ, none => some φ
  | none, ψ => ψ

/-- The condition without its relative bounds of the time. -/
def remaining : Expr → Option (Formula Atom)
  | .paren e => remaining e
  | .binary .and lhs rhs => combine .and (remaining lhs) (remaining rhs)
  | .binary .or lhs rhs => combine .or (remaining lhs) (remaining rhs)
  | e => if isRelativeBound e then none else some (.atom (atomOf e))

/-- What a condition reads of a point: its tags, and how the expressions about
anything else turn out. -/
structure Point where
  tag : String → String
  other : Expr → Prop

def Point.holds (p : Point) : Atom → Prop
  | .tag f => if f.op = "==" then p.tag f.tag = f.value else p.tag f.tag ≠ f.value
  | .other e => p.other e

def Point.satisfies (p : Point) (condition : Option Expr) : Prop :=
  ∀ e ∈ condition, ∀ φ ∈ remaining e, φ.Holds p.holds

def QueryConfig.tells (qc : QueryConfig) (p : Point) : Prop :=
  ∀ t ∈ qc.tags, if qc.areTagsAccepted then p.tag t.1 ∈ t.2 else p.tag t.1 ∉ t.2

/-- The condition holds for a point exactly when the config says so. -/
def QueryConfig.Faithful (qc : QueryConfig) (condition : Option Expr) : Prop :=
  ∀ p : Point, p.satisfies condition ↔ qc.tells p

/-! ### The conditions that a config can tell -/

/-- The filter that the expression is read as. -/
def Atom.filter : Atom → Option TagFilter
  | .tag f => some f
  | .other e =>
    match isTagFilter e with
    | .ok f => f
    | .error _ => none

/-- The filter, if it is about a tag indeed. -/
def Atom.tagFilter : Atom → Option TagFilter
  | .tag f => some f
  | .other _ => none

/-- The filters that the condition is read as. -/
def listed (φ : Formula Atom) : List TagFilter := φ.atoms.filterMap Atom.filter

def tagsOf (A : List Atom) : List TagFilter := A.filterMap Atom.tagFilter

/-- No tag is to have two values. -/
def Consistent (A : List Atom) : Prop := ∀ f ∈ tagsOf A, ∀ g ∈ tagsOf A, f.tag = g.tag → f.value = g.value

instance (A : List Atom) : Decidable (Consistent A) := inferInstanceAs (Decidable (∀ f ∈ tagsOf A, _))

/-- The choices of one value for each tag. -/
def choices (tags : List (String × List String)) : List (List (String × String)) :=
  (tags.map fun t => t.2.map (t.1, ·)).sections

/-- The atom asks for the value chosen. -/
def Atom.Chosen (c : List (String × String)) (a : Atom) : Prop := ∃ f ∈ a.tagFilter, (f.tag, f.value) ∈ c

instance (c : List (String × String)) : DecidablePred (Atom.Chosen c) := fun a =>
  inferInstanceAs (Decidable (∃ f ∈ a.tagFilter, _))

/-- The condition is a product of the values listed for each tag. -/
def IsProduct (φ : Formula Atom) : Prop :=
  (∀ A ∈ φ.alternatives, Consistent A → ∀ f ∈ listed φ, ∃ g ∈ tagsOf A, g.tag = f.tag) ∧
    ∀ c ∈ choices ((listed φ).foldl addTag []), φ.Holds (Atom.Chosen c)

/-- The atom compares the same tag with the same value. -/
def Atom.Excludes (f : TagFilter) (a : Atom) : Prop := ∃ g ∈ a.tagFilter, g.tag = f.tag ∧ g.value = f.value

instance (f : TagFilter) : DecidablePred (Atom.Excludes f) := fun a =>
  inferInstanceAs (Decidable (∃ g ∈ a.tagFilter, _))

/-- The condition fails for each value that is listed, and only for these. -/
def IsExclusion (φ : Formula Atom) : Prop :=
  (φ.Holds fun a => a.tagFilter.isSome) ∧ ∀ f ∈ listed φ, φ.Needs (Atom.Excludes f)

/-- The config can tell the condition. -/
def Expressible (φ : Formula Atom) : Prop := if ∀ f ∈ listed φ, f.op = "==" then IsProduct φ else IsExclusion φ

/-! ### What the logic of an expression tells -/

/-- The filters are those of what remains of the condition, in order. -/
def Reads (e : Expr) (fs : List TagFilter) : Prop :=
  match remaining e with
  | some φ => φ.atoms.map Atom.filter = fs.map some
  | none => fs = []

theorem Reads.combine {f : Formula Atom → Formula Atom → Formula Atom} {l r : Option (Formula Atom)} {fs gs : List TagFilter}
    (hf : ∀ φ ψ, (f φ ψ).atoms = φ.atoms ++ ψ.atoms)
    (hl : match l with | some φ => φ.atoms.map Atom.filter = fs.map some | none => fs = [])
    (hr : match r with | some φ => φ.atoms.map Atom.filter = gs.map some | none => gs = []) :
    match combine f l r with
    | some φ => φ.atoms.map Atom.filter = (fs ++ gs).map some
    | none => fs ++ gs = [] := by
  cases l <;> cases r <;> simp_all [Influx.combine]

/-- The filters of an AND or an OR are those of both sides. -/
theorem Reads.binary {op : Operator} {lhs rhs : Expr} {fs gs : List TagFilter} (hop : ¬ (op ≠ .and ∧ op ≠ .or))
    (hl : Reads lhs fs) (hr : Reads rhs gs) : Reads (.binary op lhs rhs) (fs ++ gs) := by
  have hcases : op = .and ∨ op = .or := by
    by_contra hne
    exact hop (not_or.mp hne)
  rcases hcases with rfl | rfl
  · exact Reads.combine (fun _ _ => rfl) hl hr
  · exact Reads.combine (fun _ _ => rfl) hl hr

theorem isPreviousTime_of_isTime {e : Expr} (h : isTime e) : isPreviousTime e = none := by
  fun_induction isTime e with
  | case1 e ih => exact ih h
  | case2 v type => rfl
  | case3 => exact absurd h Bool.false_ne_true

theorem mentionsNow_of_isNow {e : Expr} (h : isNow e) : mentionsNow e := by
  fun_induction isNow e with
  | case1 e ih => exact ih h
  | case2 name args => exact h
  | case3 => exact absurd h Bool.false_ne_true

theorem mentionsNow_of_isPreviousTime {e : Expr} {d : ℤ} (h : isPreviousTime e = some d) : mentionsNow e := by
  fun_induction isPreviousTime e with
  | case1 e ih => exact ih h
  | case2 op lhs rhs hnow =>
    rw [Bool.and_eq_true, Bool.or_eq_true] at hnow
    rw [mentionsNow, Bool.or_eq_true]
    exact hnow.1.imp mentionsNow_of_isNow mentionsNow_of_isNow
  | case3 => cases h
  | case4 e hparen hbinary hnow => exact mentionsNow_of_isNow hnow
  | case5 => cases h

theorem remaining_of_filterOp {operator : Operator} {lhs rhs : Expr} {op : String} (h : filterOp operator = some op) :
    remaining (.binary operator lhs rhs) = some (.atom (atomOf (.binary operator lhs rhs))) := by
  cases operator <;> first | rfl | cases h

theorem filter_other {e : Expr} {r : Option TagFilter} (h : isTagFilter e = .ok r) : (Atom.other e).filter = r := by
  rw [Atom.filter, h]

section Filter

variable {operator : Operator} {op t v : String} {type : DataType} (hop : filterOp operator = some op)

include hop

theorem isTagFilter_left : isTagFilter (.binary operator (.varRef t type) (.string v)) = .ok (some ⟨op, t, v⟩) := by
  simp [isTagFilter, hop, isString, isVarRef]

theorem isTagFilter_right : isTagFilter (.binary operator (.string v) (.varRef t type)) = .ok (some ⟨op, t, v⟩) := by
  simp [isTagFilter, hop, isString, isVarRef]

theorem filter_left : (atomOf (.binary operator (.varRef t type) (.string v))).filter = some ⟨op, t, v⟩ := by
  rw [atomOf, hop]
  cases isTag t type with
  | true => rfl
  | false => exact filter_other (isTagFilter_left hop)

theorem filter_right : (atomOf (.binary operator (.string v) (.varRef t type))).filter = some ⟨op, t, v⟩ := by
  rw [atomOf, hop]
  cases isTag t type with
  | true => rfl
  | false => exact filter_other (isTagFilter_right hop)

end Filter

/-- What is read as a filter remains, and is read as this filter. -/
theorem reads_of_isTagFilter {e : Expr} {f : TagFilter} (h : isTagFilter e = .ok (some f)) : Reads e [f] := by
  fun_induction isTagFilter e with
  | case1 e ih => exact ih h
  | case4 operator op hop t type v htag hboth =>
    cases h
    rw [Reads, remaining_of_filterOp hop]
    exact congrArg (fun r => [r]) (filter_left hop)
  | case6 operator op hop t type v htag hboth =>
    cases h
    rw [Reads, remaining_of_filterOp hop]
    exact congrArg (fun r => [r]) (filter_right hop)
  | _ => cases h

/-- Nothing remains of a time range. -/
theorem remaining_of_isTimeRange {e : Expr} {d : ℤ} (h : isTimeRange e = some d) : remaining e = none := by
  fun_induction isTimeRange e with
  | case1 e ih => exact ih h
  | case2 op lhs rhs hrange =>
    rw [Bool.and_eq_true, Bool.or_eq_true] at hrange
    obtain ⟨htime, hop⟩ := hrange
    have hbound : isRelativeBound (.binary op lhs rhs) := by
      rw [isRelativeBound, hop, Bool.true_and, Bool.or_eq_true, Bool.and_eq_true, Bool.and_eq_true]
      rcases htime with hl | hr
      · rw [isPreviousTime_of_isTime hl] at h
        exact Or.inl ⟨hl, mentionsNow_of_isPreviousTime h⟩
      · rw [isPreviousTime_of_isTime hr] at h
        exact Or.inr ⟨mentionsNow_of_isPreviousTime (by simpa using h), hr⟩
    cases op <;> first | exact absurd hop Bool.false_ne_true | exact if_pos hbound
  | case3 => cases h
  | case4 => cases h

theorem reads_of_isTimeRange {e : Expr} (h : (isTimeRange e).isSome) : Reads e [] := by
  obtain ⟨d, hd⟩ := Option.isSome_iff_exists.mp h
  rw [Reads, remaining_of_isTimeRange hd]

/-- A filter is not a time range. -/
theorem isTimeRange_of_isTagFilter {e : Expr} {f : TagFilter} (h : isTagFilter e = .ok (some f)) :
    (isTimeRange e).isSome = false := by
  rw [Bool.eq_false_iff]
  intro hrange
  have hreads := reads_of_isTagFilter h
  obtain ⟨d, hd⟩ := Option.isSome_iff_exists.mp hrange
  rw [Reads, remaining_of_isTimeRange hd] at hreads
  cases hreads

theorem bind_ok {α β : Type} {x : Except Failure α} {k : α → Except Failure β} {b : β} (h : x >>= k = .ok b) :
    ∃ a, x = .ok a ∧ k a = .ok b := by
  cases x with
  | error e => cases h
  | ok a => exact ⟨a, rfl, h⟩

/-- Time ranges and filters, joined with AND and OR. -/
inductive TagLogic : Expr → List TagFilter → Prop
  | paren {e fs} (inner : TagLogic e fs) : TagLogic (.paren e) fs
  | range {e} (range : (isTimeRange e).isSome) : TagLogic e []
  | filter {e f} (filter : isTagFilter e = .ok (some f)) : TagLogic e [f]
  | binary {op lhs rhs fs gs} (hop : ¬ (op ≠ .and ∧ op ≠ .or)) (left : TagLogic lhs fs) (right : TagLogic rhs gs) :
    TagLogic (.binary op lhs rhs) (fs ++ gs)

section Sides

variable {op : Operator} {lhs rhs : Expr} {l r : Option TagFilter} {fs : List TagFilter}

theorem tagLogic_of_sameTag (hl : isTagFilter lhs = .ok l) (hr : isTagFilter rhs = .ok r) (h : sameTag op l r = some fs) :
    TagLogic (.binary op lhs rhs) fs := by
  rcases l with - | f <;> rcases r with - | g <;> simp only [sameTag, reduceCtorEq] at h
  split_ifs at h with hsame
  cases h
  have hop : ¬ (op ≠ .and ∧ op ≠ .or) := fun hne => hne.2 hsame.2.2
  exact .binary hop (.filter hl) (.filter hr)

theorem tagLogic_of_besideTime (hop : ¬ (op ≠ .and ∧ op ≠ .or)) (hl : isTagFilter lhs = .ok l) (hr : isTagFilter rhs = .ok r)
    (h : besideTime ((isTimeRange lhs).isSome || (isTimeRange rhs).isSome) l r = some fs) :
    TagLogic (.binary op lhs rhs) fs := by
  rw [besideTime] at h
  split_ifs at h with htm
  rw [Bool.or_eq_true] at htm
  rcases l with - | f
  · rcases r with - | g
    · cases h
    · cases h
      have hrange := htm.resolve_right (by rw [isTimeRange_of_isTagFilter hr]; exact Bool.false_ne_true)
      exact .binary hop (.range hrange) (.filter hr)
  · cases h
    have hrange := htm.resolve_left (by rw [isTimeRange_of_isTagFilter hl]; exact Bool.false_ne_true)
    exact .binary hop (.filter hl) (.range hrange)

theorem joined_some {x y : Option (List TagFilter)} (h : joined x y = some fs) : ∃ tl tr, x = some tl ∧ y = some tr ∧ fs = tl ++ tr := by
  rcases x with - | tl <;> rcases y with - | tr <;> simp only [joined, reduceCtorEq] at h
  split_ifs at h
  cases h
  exact ⟨tl, tr, rfl, rfl, rfl⟩

end Sides

/-- What counts as tag logic is made of ranges and filters. -/
theorem tagLogic_of_isTagLogic {e : Expr} {fs : List TagFilter} (h : isTagLogic e = .ok (some fs)) : TagLogic e fs := by
  fun_induction isTagLogic e generalizing fs with
  | case1 e ih => exact .paren (ih h)
  | case2 op lhs rhs hrange =>
    cases h
    exact .range hrange
  | case3 op lhs rhs hrange ihl ihr =>
    obtain ⟨r, hfilter, h⟩ := bind_ok h
    cases r with
    | some tf =>
      cases h
      exact .filter hfilter
    | none =>
      obtain ⟨l, hl, h⟩ := bind_ok h
      obtain ⟨r, hr, h⟩ := bind_ok h
      cases hsame : sameTag op l r with
      | some gs =>
        rw [hsame] at h
        cases h
        exact tagLogic_of_sameTag hl hr hsame
      | none =>
        rw [hsame] at h
        simp only at h
        split_ifs at h with hop
        · cases h
        · cases hbeside : besideTime ((isTimeRange lhs).isSome || (isTimeRange rhs).isSome) l r with
          | some gs =>
            rw [hbeside] at h
            cases h
            exact tagLogic_of_besideTime hop hl hr hbeside
          | none =>
            rw [hbeside] at h
            obtain ⟨x, hx, h⟩ := bind_ok h
            obtain ⟨y, hy, h⟩ := bind_ok h
            obtain ⟨tl, tr, rfl, rfl, rfl⟩ := joined_some (Except.ok.inj h)
            exact .binary hop (ihl hx) (ihr hy)
  | case4 => cases h

/-- The filters are those of what remains of the condition. -/
theorem TagLogic.reads {e : Expr} {fs : List TagFilter} (h : TagLogic e fs) : Reads e fs := by
  induction h with
  | paren inner ih => exact ih
  | range range => exact reads_of_isTimeRange range
  | filter filter => exact reads_of_isTagFilter filter
  | binary hop left right ihl ihr => exact Reads.binary hop ihl ihr

/-! ### Grouping by tag -/

/-- The values that a tag is compared with. -/
def values (fs : List TagFilter) (tag : String) : List String := (fs.filter (·.tag = tag)).map (·.value)

theorem mem_values {fs : List TagFilter} {tag v : String} : v ∈ values fs tag ↔ ∃ f ∈ fs, f.tag = tag ∧ f.value = v := by
  simp [values, and_assoc]

theorem values_append (fs : List TagFilter) (f : TagFilter) (tag : String) :
    values (fs ++ [f]) tag = values fs tag ++ if f.tag = tag then [f.value] else [] := by
  by_cases h : f.tag = tag <;> simp [values, List.filter_append, h]

/-- Each tag once, with its values in order. -/
structure Grouped (fs : List TagFilter) (tags : List (String × List String)) : Prop where
  nodup : (tags.map Prod.fst).Nodup
  values_eq : ∀ t ∈ tags, t.2 = values fs t.1
  mem_iff : ∀ k, k ∈ tags.map Prod.fst ↔ k ∈ fs.map (·.tag)

theorem Grouped.addTag {fs : List TagFilter} {tags : List (String × List String)} (h : Grouped fs tags) (f : TagFilter) :
    Grouped (fs ++ [f]) (addTag tags f) := by
  unfold Influx.addTag
  split_ifs with hold
  · have hkeys : (tags.map fun t => if t.1 = f.tag then (t.1, t.2 ++ [f.value]) else t).map Prod.fst = tags.map Prod.fst := by
      rw [List.map_map]
      refine List.map_congr_left fun t _ => ?_
      rw [Function.comp_apply]
      split_ifs <;> rfl
    refine ⟨by rw [hkeys]; exact h.nodup, fun t ht => ?_, fun k => ?_⟩
    · obtain ⟨t', ht', rfl⟩ := List.mem_map.mp ht
      by_cases hk : t'.1 = f.tag
      · rw [if_pos hk, values_append, if_pos hk.symm, h.values_eq t' ht']
      · rw [if_neg hk, values_append, if_neg (Ne.symm hk), List.append_nil, h.values_eq t' ht']
    · obtain ⟨t, ht, htag⟩ := hold
      have hmem : f.tag ∈ fs.map (·.tag) := (h.mem_iff f.tag).mp (List.mem_map.mpr ⟨t, ht, htag⟩)
      rw [hkeys, h.mem_iff, List.map_append, List.mem_append, List.map_singleton, List.mem_singleton]
      exact ⟨Or.inl, fun hk => hk.elim id (fun hk => hk ▸ hmem)⟩
  · have hnew : f.tag ∉ tags.map Prod.fst := fun hmem => by
      obtain ⟨t, ht, htag⟩ := List.mem_map.mp hmem
      exact hold ⟨t, ht, htag⟩
    have hnone : values fs f.tag = [] := by
      rw [h.mem_iff] at hnew
      rw [values, List.map_eq_nil_iff, List.filter_eq_nil_iff]
      intro g hg htag
      exact hnew (List.mem_map.mpr ⟨g, hg, of_decide_eq_true htag⟩)
    refine ⟨?_, fun t ht => ?_, fun k => ?_⟩
    · rw [List.map_append, List.map_singleton]
      exact List.nodup_append.mpr ⟨h.nodup, List.nodup_singleton _, fun k hk k' hk' heq => by
        rw [heq, List.mem_singleton.mp hk'] at hk
        exact hnew hk⟩
    · rw [values_append]
      rcases List.mem_append.mp ht with ht | ht
      · have hne : f.tag ≠ t.1 := fun heq => hold ⟨t, ht, heq.symm⟩
        rw [if_neg hne, List.append_nil, h.values_eq t ht]
      · obtain rfl := List.mem_singleton.mp ht
        rw [if_pos rfl, hnone, List.nil_append]
    · simp only [List.map_append, List.mem_append, h.mem_iff, List.map_singleton]

theorem grouped (fs : List TagFilter) : Grouped fs (fs.foldl addTag []) := by
  induction fs using List.reverseRecOn with
  | nil => exact ⟨List.nodup_nil, fun t ht => absurd ht List.not_mem_nil, fun k => Iff.rfl⟩
  | append_singleton fs f ih =>
    rw [List.foldl_append]
    exact ih.addTag f

theorem mem_choices {tags : List (String × List String)} {c : List (String × String)} (h : c ∈ choices tags) :
    c.map Prod.fst = tags.map Prod.fst ∧ ∀ t ∈ tags, ∃ v ∈ t.2, (t.1, v) ∈ c := by
  rw [choices, List.mem_sections, List.forall₂_map_right_iff] at h
  induction h with
  | nil => exact ⟨rfl, fun t ht => absurd ht List.not_mem_nil⟩
  | @cons x t c tags hx _ ih =>
    obtain ⟨v, hv, rfl⟩ := List.mem_map.mp hx
    refine ⟨congrArg (t.1 :: ·) ih.1, List.forall_mem_cons.mpr ⟨⟨v, hv, List.mem_cons_self⟩, fun t' ht' => ?_⟩⟩
    obtain ⟨w, hw, hmem⟩ := ih.2 t' ht'
    exact ⟨w, hw, List.mem_cons_of_mem _ hmem⟩

theorem choice_mem {tags : List (String × List String)} {g : String → String} (h : ∀ t ∈ tags, g t.1 ∈ t.2) :
    tags.map (fun t => (t.1, g t.1)) ∈ choices tags := by
  rw [choices, List.mem_sections, List.forall₂_map_left_iff, List.forall₂_map_right_iff, List.forall₂_same]
  exact fun t ht => List.mem_map.mpr ⟨g t.1, h t ht, rfl⟩

/-- Consistent values, and another one for everything else. -/
theorem exists_tags {c : List (String × String)} (h : ∀ x ∈ c, ∀ y ∈ c, x.1 = y.1 → x.2 = y.2) (z : String) :
    ∃ g : String → String, (∀ x ∈ c, g x.1 = x.2) ∧ ∀ k, k ∉ c.map Prod.fst → g k = z := by
  refine ⟨fun k => ((c.find? (·.1 = k)).map Prod.snd).getD z, fun x hx => ?_, fun k hk => ?_⟩
  · have hfound : (c.find? (·.1 = x.1)).isSome := List.find?_isSome.mpr ⟨x, hx, decide_eq_true rfl⟩
    obtain ⟨y, hy⟩ := Option.isSome_iff_exists.mp hfound
    simp only [hy, Option.map_some, Option.getD_some]
    exact h y (List.mem_of_find?_eq_some hy) x hx (by simpa using List.find?_some hy)
  · have hnone : c.find? (·.1 = k) = none := by
      rw [List.find?_eq_none]
      intro x hx heq
      exact hk (List.mem_map.mpr ⟨x, hx, of_decide_eq_true heq⟩)
    simp only [hnone, Option.map_none, Option.getD_none]

theorem exists_fresh (fs : List TagFilter) : ∃ z, ∀ f ∈ fs, f.value ≠ z := by
  obtain ⟨z, hz⟩ := Infinite.exists_notMem_finset (fs.map (·.value)).toFinset
  refine ⟨z, fun f hf heq => hz ?_⟩
  rw [List.mem_toFinset, List.mem_map]
  exact ⟨f, hf, heq⟩

/-! ### When the config can tell the condition -/

theorem eq_tag {a : Atom} {f : TagFilter} (h : f ∈ a.tagFilter) : a = .tag f := by
  cases a with
  | tag g =>
    obtain rfl : g = f := by simpa [Atom.tagFilter] using h
    rfl
  | other e => cases h

theorem mem_tagsOf {A : List Atom} {f : TagFilter} : f ∈ tagsOf A ↔ Atom.tag f ∈ A := by
  rw [tagsOf, List.mem_filterMap]
  constructor
  · rintro ⟨a, ha, hf⟩
    exact eq_tag hf ▸ ha
  · exact fun h => ⟨_, h, rfl⟩

theorem mem_listed {φ : Formula Atom} {f : TagFilter} (h : Atom.tag f ∈ φ.atoms) : f ∈ listed φ :=
  List.mem_filterMap.mpr ⟨_, h, rfl⟩

section Accepted

variable {φ : Formula Atom} (hop : ∀ f ∈ listed φ, f.op = "==")

/-- The point has one of the values listed for each tag. -/
def Accepts (fs : List TagFilter) (p : Point) : Prop := ∀ f ∈ fs, ∃ g ∈ fs, g.tag = f.tag ∧ g.value = p.tag f.tag

include hop

theorem holds_tag_iff {p : Point} {f : TagFilter} (h : Atom.tag f ∈ φ.atoms) : p.holds (.tag f) ↔ p.tag f.tag = f.value := by
  rw [Point.holds, if_pos (hop f (mem_listed h))]

theorem accepts_of_holds (hnames : ∀ A ∈ φ.alternatives, Consistent A → ∀ f ∈ listed φ, ∃ g ∈ tagsOf A, g.tag = f.tag)
    {p : Point} (h : φ.Holds p.holds) : Accepts (listed φ) p := by
  obtain ⟨A, hA, hall⟩ := Formula.holds_iff_alternative.mp h
  have htags : ∀ g ∈ tagsOf A, g ∈ listed φ ∧ p.tag g.tag = g.value := by
    intro g hg
    have hmem := Formula.mem_atoms_of_mem_alternative hA (mem_tagsOf.mp hg)
    exact ⟨mem_listed hmem, (holds_tag_iff hop hmem).mp (hall _ (mem_tagsOf.mp hg))⟩
  have hcons : Consistent A := by
    intro f hf g hg htag
    rw [← (htags f hf).2, ← (htags g hg).2, htag]
  intro f hf
  obtain ⟨g, hg, htag⟩ := hnames A hA hcons f hf
  exact ⟨g, (htags g hg).1, htag, by rw [← (htags g hg).2, htag]⟩

theorem holds_of_accepts (hchoices : ∀ c ∈ choices ((listed φ).foldl addTag []), φ.Holds (Atom.Chosen c)) {p : Point}
    (h : Accepts (listed φ) p) : φ.Holds p.holds := by
  have hgrouped := grouped (listed φ)
  have hc : ((listed φ).foldl addTag []).map (fun t => (t.1, p.tag t.1)) ∈ choices ((listed φ).foldl addTag []) := by
    refine choice_mem fun t ht => ?_
    obtain ⟨f, hf, htag⟩ := List.mem_map.mp ((hgrouped.mem_iff t.1).mp (List.mem_map_of_mem ht))
    obtain ⟨g, hg, hgtag, hvalue⟩ := h f hf
    rw [hgrouped.values_eq t ht, mem_values]
    exact ⟨g, hg, hgtag.trans htag, hvalue.trans (congrArg p.tag htag)⟩
  refine Formula.holds_mono (fun a ha hchosen => ?_) (hchoices _ hc)
  obtain ⟨f, hf, hmem⟩ := hchosen
  obtain rfl := eq_tag hf
  obtain ⟨t, -, heq⟩ := List.mem_map.mp hmem
  obtain ⟨hkey, hvalue⟩ := Prod.mk.inj heq
  exact (holds_tag_iff hop ha).mpr (hkey ▸ hvalue)

theorem names_of_faithful (h : ∀ p : Point, φ.Holds p.holds → Accepts (listed φ) p) :
    ∀ A ∈ φ.alternatives, Consistent A → ∀ f ∈ listed φ, ∃ g ∈ tagsOf A, g.tag = f.tag := by
  intro A hA hcons f hf
  obtain ⟨z, hz⟩ := exists_fresh (listed φ)
  -- a point that has the values the alternative asks for, and nowhere else one that is listed
  obtain ⟨tag, htag, hfresh⟩ := exists_tags (c := (tagsOf A).map fun g => (g.tag, g.value)) (by
    intro x hx y hy hkey
    obtain ⟨g, hg, rfl⟩ := List.mem_map.mp hx
    obtain ⟨g', hg', rfl⟩ := List.mem_map.mp hy
    exact hcons g hg g' hg' hkey) z
  have hholds : φ.Holds (Point.holds ⟨tag, fun _ => True⟩) := by
    refine Formula.holds_iff_alternative.mpr ⟨A, hA, fun a ha => ?_⟩
    cases a with
    | tag g =>
      rw [holds_tag_iff hop (Formula.mem_atoms_of_mem_alternative hA ha)]
      exact htag (g.tag, g.value) (List.mem_map_of_mem (f := fun g => (g.tag, g.value)) (mem_tagsOf.mpr ha))
    | other e => trivial
  obtain ⟨g, hg, -, hvalue⟩ := h _ hholds f hf
  by_contra hnone
  refine hz g hg (hvalue.trans (hfresh f.tag fun hmem => hnone ?_))
  obtain ⟨x, hx, hkey⟩ := List.mem_map.mp hmem
  obtain ⟨g', hg', rfl⟩ := List.mem_map.mp hx
  exact ⟨g', hg', hkey⟩

theorem choices_of_faithful (h : ∀ p : Point, Accepts (listed φ) p → φ.Holds p.holds) :
    ∀ c ∈ choices ((listed φ).foldl addTag []), φ.Holds (Atom.Chosen c) := by
  intro c hc
  have hgrouped := grouped (listed φ)
  obtain ⟨hkeys, hlisted⟩ := mem_choices hc
  obtain ⟨tag, htag, -⟩ := exists_tags (c := c) (by
    intro x hx y hy hkey
    rw [List.inj_on_of_nodup_map (hkeys ▸ hgrouped.nodup) hx hy hkey]) ""
  -- for each tag that is listed, the value of it that is chosen
  have hchosen : ∀ f ∈ listed φ, (f.tag, tag f.tag) ∈ c ∧ tag f.tag ∈ values (listed φ) f.tag := by
    intro f hf
    obtain ⟨t, ht, hkey⟩ := List.mem_map.mp ((hgrouped.mem_iff f.tag).mpr (List.mem_map_of_mem (f := (·.tag)) hf))
    obtain ⟨v, hv, hmem⟩ := hlisted t ht
    rw [hgrouped.values_eq t ht] at hv
    have hvalue : tag f.tag = v := by rw [← hkey]; exact htag _ hmem
    rw [hvalue, ← hkey]
    exact ⟨hmem, hv⟩
  have haccepts : Accepts (listed φ) ⟨tag, fun _ => False⟩ := fun f hf => mem_values.mp (hchosen f hf).2
  refine Formula.holds_mono (fun a ha hholds => ?_) (h _ haccepts)
  cases a with
  | tag f =>
    have hvalue : tag f.tag = f.value := (holds_tag_iff hop ha).mp hholds
    exact ⟨f, rfl, hvalue ▸ (hchosen f (mem_listed ha)).1⟩
  | other e => exact hholds.elim

/-- A condition with `=` asks for one of the values listed for each tag if and
only if it is their product. -/
theorem product_iff : (∀ p : Point, φ.Holds p.holds ↔ Accepts (listed φ) p) ↔ IsProduct φ := by
  constructor
  · exact fun h => ⟨names_of_faithful hop fun p => (h p).mp, choices_of_faithful hop fun p => (h p).mpr⟩
  · exact fun h p => ⟨accepts_of_holds hop h.1, holds_of_accepts hop h.2⟩

end Accepted

section Excluded

variable {φ : Formula Atom} (hop : ∀ f ∈ listed φ, f.op ≠ "==")

/-- The point has none of the values listed. -/
def Rejects (fs : List TagFilter) (p : Point) : Prop := ∀ f ∈ fs, p.tag f.tag ≠ f.value

include hop

theorem holds_tag_iff_ne {p : Point} {f : TagFilter} (h : Atom.tag f ∈ φ.atoms) : p.holds (.tag f) ↔ p.tag f.tag ≠ f.value := by
  rw [Point.holds, if_neg (hop f (mem_listed h))]

/-- A condition with `!=` asks for none of the values listed if and only if it
can hold by its tags alone and none of its comparisons is dispensable. -/
theorem exclusion_iff : (∀ p : Point, φ.Holds p.holds ↔ Rejects (listed φ) p) ↔ IsExclusion φ := by
  obtain ⟨z, hz⟩ := exists_fresh (listed φ)
  constructor
  · refine fun h => ⟨?_, fun f hf => ?_⟩
    · have hrejects : Rejects (listed φ) ⟨fun _ => z, fun _ => False⟩ := fun f hf => (hz f hf).symm
      refine Formula.holds_mono (fun a ha hholds => ?_) ((h _).mpr hrejects)
      cases a with
      | tag f => rfl
      | other e => exact hholds.elim
    · -- the point has the value of `f`, and nowhere else one that is listed
      have hnot : ¬ φ.Holds (Point.holds ⟨fun k => if k = f.tag then f.value else z, fun _ => True⟩) := by
        intro hholds
        exact (h _).mp hholds f hf (if_pos rfl)
      rw [Formula.needs_iff]
      intro hneeds
      refine hnot (Formula.holds_mono (fun a ha hother => ?_) hneeds)
      cases a with
      | tag g =>
        rw [holds_tag_iff_ne hop ha]
        intro hvalue
        simp only at hvalue
        split_ifs at hvalue with htag
        · exact hother ⟨g, rfl, htag, hvalue.symm⟩
        · exact hz g (mem_listed ha) hvalue.symm
      | other e => trivial
  · rintro ⟨htags, hneeds⟩ p
    constructor
    · intro hholds f hf hvalue
      refine Formula.needs_iff.mp (hneeds f hf) (Formula.holds_mono (fun a ha hatom hexcl => ?_) hholds)
      obtain ⟨g, hg, htag, hsame⟩ := hexcl
      obtain rfl := eq_tag hg
      refine (holds_tag_iff_ne hop ha).mp hatom ?_
      rw [htag, hsame, hvalue]
    · intro hrejects
      refine Formula.holds_mono (fun a ha hsome => ?_) htags
      cases a with
      | tag f => exact (holds_tag_iff_ne hop ha).mpr (hrejects f (mem_listed ha))
      | other e => cases hsome

end Excluded

/-! ### The config of a query -/

/-- The condition of the query as it is parsed. -/
def condition (parse : String → Option (List Statement)) (influxQL : String) : Option Expr :=
  match parse (prepared influxQL) with
  | some [.select stmt _] => stmt.condition
  | _ => none

section Converted

variable {parse : String → Option (List Statement)} {reduce : Expr → Expr} {influxQL : String} {qc : QueryConfig}

/-- A config that is no text comes from a statement and its condition. -/
theorem convert_ok (h : convert parse reduce influxQL = .ok qc) (hraw : qc.rawText = none) :
    ∃ base, base.tags = [] ∧ base.rangeLower = none ∧
      withCondition reduce (itsDashboardTime influxQL) base (condition parse influxQL) = .ok (some qc) := by
  unfold convert at h
  split at h
  · cases h
  · next stmt target hparse =>
    split at h
    · cases h
      cases hraw
    · next base hselection =>
      obtain ⟨r, hwith, h⟩ := bind_ok h
      cases r with
      | none =>
        cases h
        cases hraw
      | some qc' =>
        cases h
        rw [condition, hparse]
        obtain ⟨htags, -, hrange⟩ := selection_empty hselection
        exact ⟨base, htags, hrange, hwith⟩
  · cases h
    cases hraw

end Converted

theorem withFilters_some {base qc : QueryConfig} {fs : List TagFilter} (hbase : base.tags = [])
    (h : withFilters base fs = some qc) :
    qc.tags = fs.foldl addTag [] ∧ qc.areTagsAccepted = decide ("==" ∈ opsOf fs) ∧ ∃ op, ∀ f ∈ fs, f.op = op := by
  unfold withFilters at h
  split_ifs at h with hops
  cases h
  refine ⟨by rw [hbase], rfl, ?_⟩
  rw [not_and_not_right] at hops
  cases fs with
  | nil => exact ⟨"", fun f hf => absurd hf List.not_mem_nil⟩
  | cons f fs =>
    obtain ⟨op, hop⟩ := List.length_eq_one_iff.mp (hops (Nat.succ_pos _))
    refine ⟨op, fun g hg => List.mem_singleton.mp ?_⟩
    rw [← hop, opsOf, List.mem_dedup]
    exact List.mem_map_of_mem hg

/-- What the config says, in terms of the filters it is made of. -/
theorem tells_accepted_iff {fs : List TagFilter} {p : Point} :
    (∀ t ∈ fs.foldl addTag [], p.tag t.1 ∈ t.2) ↔ Accepts fs p := by
  have hgrouped := grouped fs
  constructor
  · intro h f hf
    obtain ⟨t, ht, hkey⟩ := List.mem_map.mp ((hgrouped.mem_iff f.tag).mpr (List.mem_map_of_mem (f := (·.tag)) hf))
    have hmem := h t ht
    rw [hgrouped.values_eq t ht, mem_values, hkey] at hmem
    exact hmem
  · intro h t ht
    obtain ⟨f, hf, hkey⟩ := List.mem_map.mp ((hgrouped.mem_iff t.1).mp (List.mem_map_of_mem ht))
    rw [hgrouped.values_eq t ht, mem_values, ← hkey]
    exact h f hf

theorem tells_rejected_iff {fs : List TagFilter} {p : Point} :
    (∀ t ∈ fs.foldl addTag [], p.tag t.1 ∉ t.2) ↔ Rejects fs p := by
  have hgrouped := grouped fs
  constructor
  · intro h f hf hvalue
    obtain ⟨t, ht, hkey⟩ := List.mem_map.mp ((hgrouped.mem_iff f.tag).mpr (List.mem_map_of_mem (f := (·.tag)) hf))
    have hmem := h t ht
    rw [hgrouped.values_eq t ht, mem_values, hkey] at hmem
    exact hmem ⟨f, hf, rfl, hvalue.symm⟩
  · intro h t ht hmem
    rw [hgrouped.values_eq t ht, mem_values] at hmem
    obtain ⟨f, hf, hkey, hvalue⟩ := hmem
    exact h f hf (by rw [hkey, hvalue])

/-- Of a single kind of filters: the config says what remains of the condition
if and only if a config can tell it. -/
theorem tells_iff_expressible {qc : QueryConfig} {φ : Formula Atom} {fs : List TagFilter} {op : String}
    (hreads : φ.atoms.map Atom.filter = fs.map some) (htags : qc.tags = fs.foldl addTag [])
    (haccepted : qc.areTagsAccepted = decide ("==" ∈ opsOf fs)) (hop : ∀ f ∈ fs, f.op = op) :
    (∀ p : Point, φ.Holds p.holds ↔ qc.tells p) ↔ Expressible φ := by
  have hlisted : listed φ = fs := by
    have hmap : listed φ = (φ.atoms.map Atom.filter).filterMap id := by rw [List.filterMap_map]; rfl
    rw [hmap, hreads, List.filterMap_map]
    exact List.filterMap_some
  obtain ⟨f, hf⟩ : ∃ f, f ∈ fs := by
    refine List.exists_mem_of_ne_nil fs fun hnil => φ.atoms_ne_nil ?_
    rw [hnil] at hreads
    exact List.map_eq_nil_iff.mp hreads
  by_cases hall : ∀ f ∈ listed φ, f.op = "=="
  · have htrue : qc.areTagsAccepted = true := by
      rw [haccepted, decide_eq_true_eq, opsOf, List.mem_dedup]
      exact List.mem_map.mpr ⟨f, hf, hall f (hlisted ▸ hf)⟩
    rw [Expressible, if_pos hall, ← product_iff hall]
    simp only [QueryConfig.tells, htags, htrue, if_true, tells_accepted_iff, hlisted]
  · have hne : ∀ g ∈ listed φ, g.op ≠ "==" := by
      intro g hg heq
      rw [hlisted] at hg hall
      exact hall fun f' hf' => by rw [hop f' hf', ← hop g hg, heq]
    have hfalse : qc.areTagsAccepted = false := by
      rw [haccepted, decide_eq_false_iff_not, opsOf, List.mem_dedup]
      intro hmap
      obtain ⟨g, hg, heq⟩ := List.mem_map.mp hmap
      exact hne g (hlisted ▸ hg) heq
    rw [Expressible, if_neg hall, ← exclusion_iff hne]
    simp only [QueryConfig.tells, htags, hfalse, Bool.false_eq_true, if_false, tells_rejected_iff, hlisted]

/-- The filters of a condition, where it has become a config. -/
theorem withCondition_some {reduce : Expr → Expr} {dashboard : Bool} {base qc : QueryConfig} {c : Expr}
    (h : withCondition reduce dashboard base (some c) = .ok (some qc)) : ∃ fs filtered, Reads (reduce c) fs ∧
      withFilters base fs = some filtered ∧ qc.tags = filtered.tags ∧ qc.areTagsAccepted = filtered.areTagsAccepted := by
  obtain ⟨r, hlogic, h⟩ := bind_ok h
  cases r with
  | none => cases h
  | some fs =>
    obtain ⟨filtered, hfiltered, hqc⟩ := Option.map_eq_some_iff.mp (Except.ok.inj h)
    refine ⟨fs, filtered, (tagLogic_of_isTagLogic hlogic).reads, hfiltered, ?_⟩
    subst hqc
    split
    · split_ifs <;> exact ⟨rfl, rfl⟩
    · exact ⟨rfl, rfl⟩

theorem satisfies_iff {p : Point} {e : Expr} {φ : Formula Atom} (h : remaining e = some φ) :
    p.satisfies (some e) ↔ φ.Holds p.holds := by
  simp [Point.satisfies, h]

/-- The config of a query says what the condition does, without the bounds on
the time before now, if and only if a config can tell it. -/
theorem faithful_iff {parse : String → Option (List Statement)} {reduce : Expr → Expr} {influxQL : String}
    {qc : QueryConfig} (h : convert parse reduce influxQL = .ok qc) (hraw : qc.rawText = none) :
    qc.Faithful ((condition parse influxQL).map reduce) ↔
      ∀ e ∈ (condition parse influxQL).map reduce, ∀ φ ∈ remaining e, Expressible φ := by
  obtain ⟨base, hbase, -, hwith⟩ := convert_ok h hraw
  -- without any filter the config says nothing
  have hnone : qc.tags = [] → ∀ p, qc.tells p := fun htags p t ht => absurd (htags ▸ ht) List.not_mem_nil
  cases hcond : condition parse influxQL with
  | none =>
    rw [hcond] at hwith
    cases hwith
    exact iff_of_true (fun p => iff_of_true (fun e he => nomatch he) (hnone hbase p)) fun e he => nomatch he
  | some c =>
    rw [hcond] at hwith
    obtain ⟨fs, filtered, hreads, hfiltered, htags, haccepted⟩ := withCondition_some hwith
    obtain ⟨hftags, hfaccepted, op, hop⟩ := withFilters_some hbase hfiltered
    rw [hftags] at htags
    rw [hfaccepted] at haccepted
    unfold Reads at hreads
    rw [Option.map_some]
    cases hremaining : remaining (reduce c) with
    | none =>
      rw [hremaining] at hreads
      subst hreads
      refine iff_of_true (fun p => iff_of_true ?_ (hnone htags p)) ?_
      · intro e he φ hφ
        cases he
        rw [hremaining] at hφ
        cases hφ
      · intro e he φ hφ
        cases he
        rw [hremaining] at hφ
        cases hφ
    | some φ =>
      rw [hremaining] at hreads
      have hiff := tells_iff_expressible hreads htags haccepted hop
      simp only [QueryConfig.Faithful, satisfies_iff hremaining, hiff, Option.mem_def, Option.some.injEq]
      constructor
      · rintro hexpr e rfl ψ hψ
        rw [hremaining] at hψ
        exact Option.some.inj hψ ▸ hexpr
      · exact fun hall => hall _ rfl φ hremaining


/-- `SELECT usage FROM cpu` with a condition. -/
def usageWhere (e : Expr) : SelectStatement where
  fields := [⟨.varRef "usage" .unknown, ""⟩]
  sources := [⟨"", "", "cpu", none⟩]
  condition := some e
  dimensions := []
  fill := .null
  sortFields := []
  limit := 0
  offset := 0
  slimit := 0
  soffset := 0

def usageTags (tags : List (String × List String)) : QueryConfig :=
  { emptyConfig with
    measurement := "cpu"
    fields := [⟨"usage", "field", "", []⟩]
    tags := tags
    areTagsAccepted := true }

def hostIs (v : String) : Expr := .binary .eq (.varRef "host" .unknown) (.string v)

def regionIs (v : String) : Expr := .binary .eq (.varRef "region" .unknown) (.string v)

def hostInRegions : Expr := .binary .and (hostIs "a") (.paren (.binary .or (regionIs "b") (regionIs "c")))

/-- One host in one of two regions is what the config says. -/
theorem faithful_one_of_two :
    convert (fun _ => some [.select (usageWhere hostInRegions) none]) id
        "SELECT usage FROM cpu WHERE host = 'a' AND (region = 'b' OR region = 'c')" =
      .ok (usageTags [("host", ["a"]), ("region", ["b", "c"])]) ∧
    (usageTags [("host", ["a"]), ("region", ["b", "c"])]).Faithful (some hostInRegions) := by
  have hconvert : convert (fun _ => some [.select (usageWhere hostInRegions) none]) id
      "SELECT usage FROM cpu WHERE host = 'a' AND (region = 'b' OR region = 'c')" =
    .ok (usageTags [("host", ["a"]), ("region", ["b", "c"])]) := rfl
  refine ⟨hconvert, (faithful_iff hconvert rfl).mpr fun e he φ hφ => ?_⟩
  cases he
  cases hφ
  rw [Expressible, if_pos (by decide)]
  exact ⟨by decide, by decide⟩

def hostOrRegion : Expr := .binary .or (hostIs "a") (regionIs "b")

/-- Of a query for a host or a region the config asks for both. -/
theorem either_becomes_both :
    convert (fun _ => some [.select (usageWhere hostOrRegion) none]) id
        "SELECT usage FROM cpu WHERE host = 'a' OR region = 'b'" =
      .ok (usageTags [("host", ["a"]), ("region", ["b"])]) ∧
    ¬ (usageTags [("host", ["a"]), ("region", ["b"])]).Faithful (some hostOrRegion) := by
  refine ⟨rfl, fun h => ?_⟩
  have hboth := (h ⟨fun k => if k = "host" then "a" else "", fun _ => True⟩).mp ?_
  · have hregion := hboth ("region", ["b"]) (by decide)
    revert hregion
    decide
  · intro e he φ hφ
    cases he
    cases hφ
    exact Or.inl rfl

end Influx
end Chronograf
