/-
# One selected value and one selected locally

`resolveValues` of `tempVars/utils/index.ts` for the templates that have a list
of values. The values are compared with the value to be selected, so they are
told apart only if they differ; an empty text counts as no value; and for the
values of a query a request for a value that is not there hides the one that was
selected locally.

Key definitions: `marked`, `selectedAt`, `localSelectedAt`, `OneOfEach`, `Resolvable`.
Key theorems: `map_eq_marked`, `oneOfEach_query_iff`, `oneOfEach_constant_iff`, `oneOfEach_iff`.
-/
import Chronograf.TempVars.Templates

namespace Chronograf
namespace Templates

/-! ### What is to be selected -/

/-- The entries, of which the one at `i` is selected and the one at `j` is selected locally. -/
def marked (entries : List TemplateValue) (i j : ℕ) : List TemplateValue :=
  entries.mapIdx fun n v => { v with selected := n = i, localSelected := n = j }

def Template.isConstant (t : Template) : Bool := t.type = .csv ∨ t.type = .map

/-- The values of a template, before any is selected. -/
def entries (t : Template) (type : TemplateValueType) (newValues : List String) : List TemplateValue :=
  if t.isConstant then t.values else newValues.map fun value => ⟨value, type, false, false, none⟩

/-- The entry is asked for: by its key if it has keys. -/
def requested (t : Template) (hopefullySelectedValue : Option String) (v : TemplateValue) : Bool :=
  if t.type = .map then v.key = hopefullySelectedValue else some v.value = hopefullySelectedValue

/-- The place of a value, or another one if there is no such value. -/
def position (values : List String) (v : Option String) (other : ℕ) : ℕ := (v.bind fun v => values.idxOf? v).getD other

/-- Where the value is that was selected if it is still there, else the first one. -/
def selectedAt (t : Template) (newValues : List String) : ℕ :=
  if t.isConstant then (t.values.findIdx? (·.selected)).getD 0 else position newValues (getSelectedValue t) 0

/-- Where the requested value is, else the one that was selected locally if it is
still there, else the selected one. -/
def localSelectedAt (t : Template) (newValues : List String) (hopefullySelectedValue : Option String) : ℕ :=
  if t.isConstant then
    (t.values.findIdx? (requested t hopefullySelectedValue)).getD
      ((t.values.findIdx? (·.localSelected)).getD (selectedAt t newValues))
  else position newValues hopefullySelectedValue (position newValues (getLocalSelectedValue t) (selectedAt t newValues))

/-- All entries in order, with one that is selected and one that is selected locally. -/
def OneOfEach (t : Template) (type : TemplateValueType) (newValues : List String) (hopefullySelectedValue : Option String) : Prop :=
  selectedAt t newValues < (entries t type newValues).length ∧
  localSelectedAt t newValues hopefullySelectedValue < (entries t type newValues).length ∧
  resolveValues t (some newValues) hopefullySelectedValue =
    .ok (marked (entries t type newValues) (selectedAt t newValues) (localSelectedAt t newValues hopefullySelectedValue))

/-- The values can be told apart: different values, or different keys. -/
def Distinct (t : Template) (newValues : List String) : Prop :=
  if t.type = .csv then (t.values.map (·.value)).Nodup
  else if t.type = .map then (t.values.map (·.key)).Nodup ∧ ∀ v ∈ t.values, v.key.isSome
  else newValues ≠ [] ∧ newValues.Nodup

/-! ### When it is -/

/-- The value if it is one of those, an empty one too. -/
def among (values : List String) (v : Option String) (other : String) : String :=
  match v with
  | some v => if v ∈ values then v else other
  | none => other

/-- An empty text is there and is to be chosen instead of another one. -/
def Overlooked (values : List String) (v : Option String) (other : String) : Prop := v = some "" ∧ "" ∈ values ∧ other ≠ ""

/-- The value that was selected if it is still there, else the first one. -/
def kept (t : Template) (newValues : List String) : String := among newValues (getSelectedValue t) (newValues.headD "")

/-- No value is an empty text that is overlooked, and if the requested value is
not there, the one that was selected locally is not there either or is the selected one. -/
def ResolvableQuery (t : Template) (newValues : List String) (hopefullySelectedValue : Option String) : Prop :=
  ¬ Overlooked newValues (getSelectedValue t) (newValues.headD "") ∧
  match hopefullySelectedValue with
  | none => ¬ Overlooked newValues (getLocalSelectedValue t) (kept t newValues)
  | some h =>
    if h ∈ newValues then h ≠ "" ∨ kept t newValues = "" ∧ ∀ p ∈ getLocalSelectedValue t, p ∈ newValues → p = ""
    else if h = "" then ¬ Overlooked newValues (getLocalSelectedValue t) (kept t newValues)
    else ∀ p ∈ getLocalSelectedValue t, p ∈ newValues → p = kept t newValues

/-- No other entry has the value of the one at `i`. -/
def Alone (entries : List TemplateValue) (i : ℕ) : Prop :=
  ∀ v ∈ entries[i]?, ∀ n, ∀ w ∈ entries[n]?, w.value = v.value → n = i

def Resolvable (t : Template) (newValues : List String) (hopefullySelectedValue : Option String) : Prop :=
  if t.type = .csv then t.values ≠ []
  else if t.type = .map then
    t.values ≠ [] ∧ Alone t.values (selectedAt t newValues) ∧ Alone t.values (localSelectedAt t newValues hopefullySelectedValue)
  else ResolvableQuery t newValues hopefullySelectedValue

/-! ### Values told apart -/

variable {es : List TemplateValue} {values : List String} {a b : String} {i j : ℕ}

/-- Comparing with the value `a` finds the entry at `i` and no other one. -/
def Finds (es : List TemplateValue) (a : String) (i : ℕ) : Prop := ∀ n, ∀ v ∈ es[n]?, v.value = a ↔ n = i

theorem map_eq_marked : es.map (fun v => { v with selected := v.value = a, localSelected := v.value = b }) = marked es i j ↔
    Finds es a i ∧ Finds es b j := by
  have hentry : ∀ (n : ℕ) (v : TemplateValue), ({ v with selected := v.value = a, localSelected := v.value = b } : TemplateValue) =
      { v with selected := n = i, localSelected := n = j } ↔ (v.value = a ↔ n = i) ∧ (v.value = b ↔ n = j) := by
    intro n v
    simp
  rw [List.ext_getElem?_iff]
  constructor
  · intro h
    have hboth : ∀ n, ∀ v ∈ es[n]?, (v.value = a ↔ n = i) ∧ (v.value = b ↔ n = j) := by
      intro n v hv
      have hn := h n
      rw [marked, List.getElem?_mapIdx, List.getElem?_map, Option.mem_def.mp hv] at hn
      exact (hentry n v).mp (Option.some.inj hn)
    exact ⟨fun n v hv => (hboth n v hv).1, fun n v hv => (hboth n v hv).2⟩
  · rintro ⟨ha, hb⟩ n
    rw [marked, List.getElem?_mapIdx, List.getElem?_map]
    cases hv : es[n]? with
    | none => rfl
    | some v => exact congrArg some ((hentry n v).mpr ⟨ha n v hv, hb n v hv⟩)

theorem finds_iff_of_nodup (hes : (es.map (·.value)).Nodup) (hi : i < es.length) : Finds es a i ↔ es[i].value = a := by
  constructor
  · intro h
    exact (h i _ (List.getElem?_eq_getElem hi)).mpr rfl
  · rintro rfl n v hv
    obtain ⟨hn, rfl⟩ := List.getElem?_eq_some_iff.mp hv
    constructor
    · intro heq
      have hlength : (es.map (·.value)).length = es.length := List.length_map _
      have hn' : n < (es.map (·.value)).length := hlength ▸ hn
      have hi' : i < (es.map (·.value)).length := hlength ▸ hi
      have heq' : (es.map (·.value))[n] = (es.map (·.value))[i] := by
        rw [List.getElem_map, List.getElem_map, heq]
      exact hes.getElem_inj_iff.mp heq'
    · rintro rfl
      rfl

theorem finds_iff_alone (hi : i < es.length) : Finds es es[i].value i ↔ Alone es i := by
  constructor
  · intro h v hv n w hw heq
    obtain rfl := Option.some.inj ((List.getElem?_eq_getElem hi).symm.trans hv)
    exact (h n w hw).mp heq
  · intro h n w hw
    refine ⟨h _ (List.getElem?_eq_getElem hi) n w hw, ?_⟩
    rintro rfl
    obtain rfl := Option.some.inj ((List.getElem?_eq_getElem hi).symm.trans hw)
    rfl

/-! ### The values of a query -/

theorem truthy_of_ne {v : String} (h : v ≠ "") : truthy (some v) = some v := by
  simp [truthy, h]

theorem oneOf_of_ne {v : String} (h : v ≠ "") (o : String) : oneOf values (some v) o = if v ∈ values then v else o := by
  rw [oneOf, truthy_of_ne h]

@[simp] theorem oneOf_none (o : String) : oneOf values none o = o := rfl

@[simp] theorem oneOf_empty (o : String) : oneOf values (some "") o = o := rfl

@[simp] theorem among_none (o : String) : among values none o = o := rfl

@[simp] theorem among_some (v o : String) : among values (some v) o = if v ∈ values then v else o := rfl

theorem getElem?_position {v : Option String} {o : String} (ho : values[i]? = some o) :
    values[position values v i]? = some (among values v o) := by
  rw [position]
  cases v with
  | none => exact ho
  | some v =>
    rw [Option.bind_some, among_some]
    cases hidx : values.idxOf? v with
    | none =>
      rw [if_neg (List.idxOf?_eq_none_iff.mp hidx), Option.getD_none]
      exact ho
    | some k =>
      obtain ⟨hk, hv, _⟩ := List.idxOf?_eq_some_iff.mp hidx
      rw [if_pos (hv ▸ List.getElem_mem hk), Option.getD_some, List.getElem?_eq_getElem hk, hv]

theorem oneOf_eq_among_iff {v : Option String} : oneOf values v a = among values v a ↔ ¬ Overlooked values v a := by
  rw [Overlooked]
  cases v with
  | none => exact iff_of_true rfl nofun
  | some v =>
    by_cases hv : v = ""
    · subst hv
      rw [oneOf_empty, among_some]
      split_ifs with hmem <;> simp [hmem]
    · refine iff_of_true ?_ (by simp [hv])
      rw [oneOf_of_ne hv, among_some]

/-- What is chosen as the local selection is what is to be chosen. -/
theorem localSelected_iff (values : List String) (hoped prev : Option String) (s : String) :
    oneOf values ((truthy hoped).or prev) s = among values hoped (among values prev s) ↔
      match hoped with
      | none => ¬ Overlooked values prev s
      | some h =>
        if h ∈ values then h ≠ "" ∨ s = "" ∧ ∀ p ∈ prev, p ∈ values → p = ""
        else if h = "" then ¬ Overlooked values prev s
        else ∀ p ∈ prev, p ∈ values → p = s := by
  cases hoped with
  | none => exact oneOf_eq_among_iff
  | some h =>
    rw [among_some]
    dsimp only
    by_cases hempty : h = ""
    · subst hempty
      rw [show (truthy (some "")).or prev = prev from rfl]
      by_cases hmem : "" ∈ values
      · -- an empty text is requested and is there
        rw [if_pos hmem, if_pos hmem, or_iff_right (fun h => h rfl)]
        cases prev with
        | none => simp
        | some p =>
          by_cases hp : p = ""
          · simp [hp]
          · rw [oneOf_of_ne hp]
            by_cases hpmem : p ∈ values <;> simp [hp, hpmem]
      · rw [if_neg hmem, if_neg hmem, if_pos rfl]
        exact oneOf_eq_among_iff
    · rw [truthy_of_ne hempty, Option.some_or, oneOf_of_ne hempty]
      by_cases hmem : h ∈ values
      · rw [if_pos hmem, if_pos hmem, if_pos hmem]
        exact iff_of_true rfl (.inl hempty)
      · rw [if_neg hmem, if_neg hmem, if_neg hmem, if_neg hempty]
        cases prev with
        | none => simp
        | some p => by_cases hpmem : p ∈ values <;> simp [hpmem, eq_comm]

theorem newTemplateValueQuery_eq (t : Template) (type : TemplateValueType) (hoped : Option String) (first : String) (rest : List String) :
    newTemplateValueQuery t type (first :: rest) hoped =
      ((first :: rest).map fun value => (⟨value, type, false, false, none⟩ : TemplateValue)).map fun v =>
        { v with
          selected := v.value = oneOf (first :: rest) (getSelectedValue t) first
          localSelected := v.value = oneOf (first :: rest) ((truthy hoped).or (getLocalSelectedValue t))
            (oneOf (first :: rest) (getSelectedValue t) first) } := by
  rw [List.map_map]
  rfl

theorem oneOfEach_query_iff {t : Template} {type : TemplateValueType} {newValues : List String} {hoped : Option String}
    (hkind : t.isConstant = false)
    (hresolve : resolveValues t (some newValues) hoped = .ok (newTemplateValueQuery t type newValues hoped))
    (hne : newValues ≠ []) (hnodup : newValues.Nodup) : OneOfEach t type newValues hoped ↔ ResolvableQuery t newValues hoped := by
  obtain ⟨first, rest, rfl⟩ := List.exists_cons_of_ne_nil hne
  have hentries : entries t type (first :: rest) =
      (first :: rest).map fun value => (⟨value, type, false, false, none⟩ : TemplateValue) := by
    rw [entries, hkind]
    rfl
  have hvalues : (entries t type (first :: rest)).map (·.value) = first :: rest := by
    rw [hentries, List.map_map]
    exact List.map_id _
  -- the values at the two places
  have hsel : (first :: rest)[selectedAt t (first :: rest)]? = some (kept t (first :: rest)) := by
    rw [selectedAt, hkind]
    exact getElem?_position rfl
  have hloc : (first :: rest)[localSelectedAt t (first :: rest) hoped]? =
      some (among (first :: rest) hoped (among (first :: rest) (getLocalSelectedValue t) (kept t (first :: rest)))) := by
    rw [localSelectedAt, hkind]
    exact getElem?_position (getElem?_position hsel)
  have hat : ∀ {i : ℕ} {v : String}, (first :: rest)[i]? = some v →
      ∃ h : i < (entries t type (first :: rest)).length, (entries t type (first :: rest))[i].value = v := by
    intro i v hv
    rw [← hvalues, List.getElem?_map, Option.map_eq_some_iff] at hv
    obtain ⟨w, hw, rfl⟩ := hv
    obtain ⟨hi, rfl⟩ := List.getElem?_eq_some_iff.mp hw
    exact ⟨hi, rfl⟩
  obtain ⟨hi, hival⟩ := hat hsel
  obtain ⟨hj, hjval⟩ := hat hloc
  have hes : ((entries t type (first :: rest)).map (·.value)).Nodup := by rwa [hvalues]
  rw [OneOfEach, and_iff_right hi, and_iff_right hj, hresolve, newTemplateValueQuery_eq, ← hentries, Except.ok.injEq, map_eq_marked,
    finds_iff_of_nodup hes hi, finds_iff_of_nodup hes hj, hival, hjval, eq_comm]
  have hsame : oneOf (first :: rest) (getSelectedValue t) first = kept t (first :: rest) ↔
      ¬ Overlooked (first :: rest) (getSelectedValue t) first := oneOf_eq_among_iff
  rw [hsame]
  refine and_congr_right fun hnot => ?_
  rw [hsame.mpr hnot, eq_comm]
  exact localSelected_iff _ _ _ _

/-! ### Values that the template has -/

theorem getElem?_findIdx? (p : TemplateValue → Bool) {w : TemplateValue} (hw : es[i]? = some w) :
    es[(es.findIdx? p).getD i]? = some ((es.find? p).getD w) := by
  cases hidx : es.findIdx? p with
  | none =>
    have hfind : es.find? p = none := List.find?_eq_none.mpr (by simpa using List.findIdx?_eq_none_iff.mp hidx)
    rw [hfind, Option.getD_none, Option.getD_none]
    exact hw
  | some k =>
    obtain ⟨hk, hp, hbefore⟩ := List.findIdx?_eq_some_iff_getElem.mp hidx
    have hfind : es.find? p = some es[k] := List.find?_eq_some_iff_getElem.mpr ⟨hp, k, hk, rfl, fun n hn => by simpa using hbefore n hn⟩
    rw [hfind, Option.getD_some, Option.getD_some, List.getElem?_eq_getElem hk]

theorem getD_or {α : Type} (x y : Option α) (z : α) : (x.or y).getD z = x.getD (y.getD z) := by
  cases x <;> rfl

theorem oneOfEach_constant_iff {t : Template} {type : TemplateValueType} {newValues : List String} {hoped : Option String}
    (hkind : t.isConstant = true)
    (hresolve : resolveValues t (some newValues) hoped = .ok (newTemplateValueConstant t hoped)) :
    OneOfEach t type newValues hoped ↔
      t.values ≠ [] ∧ Alone t.values (selectedAt t newValues) ∧ Alone t.values (localSelectedAt t newValues hoped) := by
  have hentries : entries t type newValues = t.values := if_pos hkind
  rw [OneOfEach, hentries, hresolve]
  cases hvalues : t.values with
  | nil => exact iff_of_false (fun h => nomatch h.1) fun h => h.1 rfl
  | cons first rest =>
    have hsel : t.values[selectedAt t newValues]? = some ((t.values.find? (·.selected)).getD first) := by
      rw [selectedAt, if_pos hkind]
      exact getElem?_findIdx? _ (by rw [hvalues]; rfl)
    have hloc : t.values[localSelectedAt t newValues hoped]? =
        some (((t.values.find? (requested t hoped)).or (t.values.find? (·.localSelected))).getD
          ((t.values.find? (·.selected)).getD first)) := by
      rw [localSelectedAt, if_pos hkind, getD_or]
      exact getElem?_findIdx? _ (getElem?_findIdx? _ hsel)
    have hconstant : newTemplateValueConstant t hoped = t.values.map fun v =>
        { v with
          selected := v.value = ((t.values.find? (·.selected)).getD first).value
          localSelected := v.value = (((t.values.find? (requested t hoped)).or (t.values.find? (·.localSelected))).getD
            ((t.values.find? (·.selected)).getD first)).value } := by
      rw [newTemplateValueConstant]
      split
      · next hnil => rw [hnil] at hvalues; cases hvalues
      · next f r hcons =>
        rw [hcons] at hvalues
        cases hvalues
        rfl
    rw [← hvalues]
    obtain ⟨hi, hival⟩ := List.getElem?_eq_some_iff.mp hsel
    obtain ⟨hj, hjval⟩ := List.getElem?_eq_some_iff.mp hloc
    have hne : t.values ≠ [] := by
      rw [hvalues]
      exact List.cons_ne_nil _ _
    rw [hconstant, Except.ok.injEq, map_eq_marked, ← hjval, ← hival, finds_iff_alone hi, finds_iff_alone hj, and_iff_right hi,
      and_iff_right hj]
    exact (and_iff_right hne).symm

/-! ### Templates -/

/-- Exactly one value of each kind is selected, the right one, if and only if
the values to be selected are told apart. -/
theorem oneOfEach_iff (t : Template) (type : TemplateValueType) (newValues : List String) (hoped : Option String)
    (htype : templateVariableTypes t.type = some type) (htext : t.type ≠ .text) (hdistinct : Distinct t newValues) :
    OneOfEach t type newValues hoped ↔ Resolvable t newValues hoped := by
  rw [Distinct] at hdistinct
  rw [Resolvable]
  by_cases hcsv : t.type = .csv
  · rw [if_pos hcsv] at hdistinct ⊢
    have hkind : t.isConstant = true := by simp [Template.isConstant, hcsv]
    have halone : ∀ i, Alone t.values i := fun i v hv => by
      obtain ⟨hi, rfl⟩ := List.getElem?_eq_some_iff.mp hv
      exact (finds_iff_alone hi).mp ((finds_iff_of_nodup hdistinct hi).mpr rfl) _ hv
    rw [oneOfEach_constant_iff hkind (by rw [resolveValues, hcsv])]
    exact ⟨And.left, fun h => ⟨h, halone _, halone _⟩⟩
  · rw [if_neg hcsv] at hdistinct ⊢
    by_cases hmap : t.type = .map
    · rw [if_pos hmap]
      have hkind : t.isConstant = true := by simp [Template.isConstant, hmap]
      exact oneOfEach_constant_iff hkind (by rw [resolveValues, hmap])
    · rw [if_neg hmap] at hdistinct ⊢
      have hkind : t.isConstant = false := by simp [Template.isConstant, hcsv, hmap]
      refine oneOfEach_query_iff hkind ?_ hdistinct.1 hdistinct.2
      rw [resolveValues]
      cases hkind : t.type <;> rw [hkind] at htype <;> first | contradiction | (cases htype; rfl)

theorem oneOfEach_csv : OneOfEach ⟨"t", ":t:", [⟨"a", .csv, false, false, none⟩, ⟨"b", .csv, true, false, none⟩], .csv, none⟩
    .csv [] (some "a") ↔
    Resolvable ⟨"t", ":t:", [⟨"a", .csv, false, false, none⟩, ⟨"b", .csv, true, false, none⟩], .csv, none⟩ [] (some "a") :=
  oneOfEach_iff _ _ _ _ rfl (by decide) (by simp [Distinct])

/-- Two keys with one value: both are selected. -/
theorem map_selects_both : ¬ ∀ (t : Template) (type : TemplateValueType) (newValues : List String) (hoped : Option String),
    templateVariableTypes t.type = some type → t.type ≠ .text → t.values ≠ [] → Distinct t newValues →
    OneOfEach t type newValues hoped := by
  intro h
  obtain ⟨_, _, hresolve⟩ := h
    ⟨"t", ":t:", [⟨"v", .map, true, true, some "k1"⟩, ⟨"v", .map, false, false, some "k2"⟩], .map, none⟩ .map [] none rfl (by decide)
    (List.cons_ne_nil _ _) (by simp [Distinct])
  exact absurd hresolve (by decide)

-- the requested value is not there, and the value that was selected locally is given up
example : resolveValues ⟨"t", ":t:", [⟨"a", .tagKey, true, false, none⟩, ⟨"b", .tagKey, false, true, none⟩], .tagKeys, none⟩
    (some ["a", "b"]) (some "c") = .ok [⟨"a", .tagKey, true, true, none⟩, ⟨"b", .tagKey, false, false, none⟩] := rfl

end Templates
end Chronograf
