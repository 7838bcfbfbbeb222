/-
# The steps of the query builder

`addInitialField`, `toggleField`, `removeFuncs`, `applyFuncsToField`, `groupByTag`
and `chooseTag` of `utils/queryTransitions.ts`, over the helpers of
`shared/reducers/helpers/fields.js`. The functions that are applied to a field
take the place of the first function of the field; the other ones go.

Key definitions: `toggleField`, `applyFuncsToField`, `chooseTag`, `step`, `WellFormed`, `Meets`, `AppliedExactly`.
Key theorems: `applyFuncsToField_plain`, `applyFuncsToField_functions`, `wellFormed_step_iff`, `transitions_iff`,
`offered_keptThrough`.
-/
import Chronograf.Graphs.TimeShifts
import Chronograf.Lib.Objects
import Chronograf.Lib.Unique
import Mathlib.Data.List.Flatten

namespace Chronograf
namespace QueryTransitions

open TimeShifts (Field GroupBy)

/-- What the transitions change. -/
structure QueryConfig where
  fields : List Field
  tags : Props (List String)
  groupBy : GroupBy

def defaultQueryConfig : QueryConfig := ⟨[], Props.empty, ⟨"", []⟩⟩

/-! ### Fields in fields -/

section Walk

variable {β : Type} (fn : Field → Option β)

mutual

def walkField : Field → List β
  | .mk value type aliasName args => (fn (.mk value type aliasName args)).toList ++ fieldWalk args

/-- Traverses fields recursively into args. -/
def fieldWalk : List Field → List β
  | [] => []
  | f :: fs => walkField f ++ fieldWalk fs

end

end Walk

def getFieldsDeep (fields : List Field) : List Field :=
  uniqBy Field.value (fieldWalk (fun f => if f.type = .field then some f else none) fields)

def fieldNamesDeep (fields : List Field) : List String := (getFieldsDeep fields).map Field.value

def hasField (fieldName : String) (fields : List Field) : Bool := (fieldNamesDeep fields).any (· = fieldName)

def getFunctions (fields : List Field) : List Field := fields.filter fun f => f.type = .func

def everyTopField (fields : List Field) : Bool := fields.all fun f => f.type = .field

def getFuncsByFieldName (fieldName : String) (fields : List Field) : List Field :=
  (getFunctions fields).filter fun f => f.args.any fun a => a.value = fieldName

/-- Arguments that are missing cannot be looked through. -/
def arguments (f : Field) : Option (List Field) := if f.args.isEmpty then none else some f.args

def removeField (fieldName : String) (fields : List Field) : Option (List Field) :=
  if everyTopField fields then some (fields.filter fun f => f.value ≠ fieldName)
  else fields.foldlM (fun acc f => (arguments f).map fun args => if hasField fieldName args then acc else acc ++ [f]) []

/-! ### Transitions -/

def plain (value : String) : Field := .mk value .field "" []

def buildInitialField (value : String) : Field := .mk "mean" .func ("mean_" ++ value) [plain value]

def addInitialField (query : QueryConfig) (value : String) (groupBy : GroupBy) : QueryConfig :=
  { query with fields := [buildInitialField value], groupBy }

def toggleField (query : QueryConfig) (value : String) : Option QueryConfig :=
  if hasField value query.fields then
    (removeField value query.fields).map fun newFields =>
      if newFields.isEmpty then { query with groupBy := { query.groupBy with time := "" }, fields := [] }
      else { query with fields := newFields }
  else if (getFunctions query.fields).isEmpty then some { query with fields := query.fields ++ [plain value] }
  else some { query with fields := query.fields ++ [buildInitialField value] }

def removeFuncs (query : QueryConfig) (fields : List Field) : QueryConfig :=
  { query with fields := getFieldsDeep fields, groupBy := { query.groupBy with time := "" } }

/-- A function that is chosen. -/
structure FuncArg where
  value : String
  aliasName : String

/-- A function on a field that had none. -/
def applied (f : Field) (func : FuncArg) : Field :=
  .mk func.value .func (if func.aliasName = "" then func.value ++ "_" ++ f.value else func.aliasName) [plain f.value]

/-- A function on a field that had functions. -/
def replaced (field : Field) (func : FuncArg) : Field :=
  .mk func.value .func (func.value ++ "_" ++ field.value) [field]

/-- The functions of a plain field are in a list of their own until the end. -/
def applyTo (field : Field) (funcs : List FuncArg) (acc : List (Field ⊕ List Field)) (f : Field) : Option (List (Field ⊕ List Field)) :=
  if f.type = .field then some (acc ++ [.inr (funcs.map (applied f))])
  else (arguments f).map fun args =>
    match args.find? fun a => a.value = field.value with
    | some fieldToChange =>
      let funcsToChange := getFuncsByFieldName fieldToChange.value (acc.filterMap Sum.getLeft?)
      let newFuncs := funcs.filter fun func => !funcsToChange.any fun a => a.value = func.value
      acc ++ newFuncs.map fun func => .inl (replaced field func)
    | none => acc ++ [.inl f]

def applyFuncsToField (query : QueryConfig) (field : Field) (funcs : List FuncArg) (groupBy : GroupBy) : Option QueryConfig :=
  (query.fields.foldlM (applyTo field funcs) []).map fun nextFields =>
    { query with fields := nextFields.flatMap (Sum.elim (fun f => [f]) id), groupBy }

def groupByTag (query : QueryConfig) (tagKey : String) : QueryConfig :=
  let oldTags := query.groupBy.tags
  { query with groupBy := { query.groupBy with
    tags := if oldTags.contains tagKey then oldTags.erase tagKey else oldTags ++ [tagKey] } }

/-- Texts in a list, one of them put in or taken out. A property that every object has is no list. -/
def chooseTag (query : QueryConfig) (key value : String) : Option QueryConfig :=
  match query.tags.get? key with
  | none => if Props.inherited.contains key then none else some { query with tags := query.tags.set key [value] }
  | some tagValues =>
    if tagValues = [value] then some { query with tags := query.tags.delete key }
    else if tagValues.contains value then some { query with tags := query.tags.set key (tagValues.erase value) }
    else some { query with tags := query.tags.set key (tagValues ++ [value]) }

inductive Action
  | toggleField (value : String)
  | addInitialField (value : String) (groupBy : GroupBy)
  | applyFuncsToField (field : String) (funcs : List FuncArg) (groupBy : GroupBy)
  | removeFuncs (fields : List Field)
  | chooseTag (key value : String)
  | groupByTag (tagKey : String)

def step (query : QueryConfig) : Action → Option QueryConfig
  | .toggleField value => toggleField query value
  | .addInitialField value groupBy => some (addInitialField query value groupBy)
  | .applyFuncsToField field funcs groupBy => applyFuncsToField query (plain field) funcs groupBy
  | .removeFuncs fields => some (removeFuncs query fields)
  | .chooseTag key value => chooseTag query key value
  | .groupByTag tagKey => some (groupByTag query tagKey)

def run (query : QueryConfig) (actions : List Action) : Option QueryConfig := actions.foldlM step query

/-! ### Well-formed queries -/

/-- The functions, each with the fields it is about. -/
def pairs (fields : List Field) : List (String × String) :=
  (getFunctions fields).flatMap fun f => (fieldNamesDeep f.args).map fun x => (f.value, x)

def aliases (fields : List Field) : List String := ((getFunctions fields).map Field.aliasName).filter (· ≠ "")

/-- Functions with arguments. -/
def AllFunctions (fields : List Field) : Prop := ∀ f ∈ fields, f.type = .func ∧ f.args ≠ []

structure WellFormed (query : QueryConfig) : Prop where
  kinds : (∀ f ∈ query.fields, f.type = .field) ∨ AllFunctions query.fields
  fields : ((query.fields.filter fun f => f.type = .field).map Field.value).Nodup
  pairs : (pairs query.fields).Nodup
  aliases : (aliases query.fields).Nodup
  tags : ∀ key values, query.tags.get? key = some values → values ≠ [] ∧ values.Nodup

/-! ### What the actions must be -/

def Named (field : String) (f : Field) : Prop := ∃ a ∈ f.args, a.value = field

/-- The functions differ. On plain fields the aliases differ; beside functions, they are no
alias of a function that stays, and no function that stays has them on the field. -/
def Applies (fields : List Field) (field : String) (funcs : List FuncArg) : Prop :=
  if everyTopField fields then
    (fields ≠ [] → (funcs.map FuncArg.value).Nodup) ∧ (fields.flatMap fun f => funcs.map fun func => (applied f func).aliasName).Nodup
  else (∃ f ∈ fields, Named field f) →
    (funcs.map FuncArg.value).Nodup ∧ ∀ g ∈ fields, ¬Named field g → ∀ func ∈ funcs,
      g.aliasName ≠ func.value ++ "_" ++ field ∧ ¬(g.value = func.value ∧ hasField field g.args)

def Meets (query : QueryConfig) : Action → Prop
  | .toggleField value => ¬hasField value query.fields → ∀ f ∈ query.fields, f.type = .func → f.aliasName ≠ "mean_" ++ value
  | .addInitialField _ _ => True
  | .applyFuncsToField field funcs _ => Applies query.fields field funcs
  | .removeFuncs _ => True
  | .chooseTag key _ => key ∈ Props.inherited → query.tags.get? key ≠ none
  | .groupByTag _ => True

/-- Every action does, where it is taken. -/
def MeetsAll : QueryConfig → List Action → Prop
  | _, [] => True
  | query, action :: actions => Meets query action ∧ ∀ next, step query action = some next → MeetsAll next actions

/-! ### What applying functions should do -/

def OfField (field : String) (f : Field) : Prop := hasField field f.args

instance (field : String) (f : Field) : Decidable (OfField field f) := inferInstanceAs (Decidable (hasField field f.args = true))

instance (field : String) (f : Field) : Decidable (Named field f) := inferInstanceAs (Decidable (∃ a ∈ f.args, a.value = field))

/-- Exactly the chosen functions for the field, those that were there as they were, and the functions
of other fields unchanged. -/
def AppliedExactly (field : String) (funcs : List FuncArg) (fields next : List Field) : Prop :=
  ((next.filter (OfField field ·)).map Field.value).Perm (funcs.map FuncArg.value) ∧
    (∀ f ∈ fields, OfField field f → f.value ∈ funcs.map FuncArg.value → f ∈ next) ∧
    next.filter (¬OfField field ·) = fields.filter (¬OfField field ·)

/-- The functions with an argument of this name are those of the field, and the chosen ones of them have
no further argument and the alias that is made. Without any of them the functions of the field are the chosen ones. -/
def Exact (fields : List Field) (field : String) (funcs : List FuncArg) : Prop :=
  if ∃ f ∈ fields, Named field f then
    (∀ f ∈ fields, Named field f ↔ OfField field f) ∧
      ∀ f ∈ fields, OfField field f → f.value ∈ funcs.map FuncArg.value → f = .mk f.value .func (f.value ++ "_" ++ field) [plain field]
  else ((fields.filter (OfField field ·)).map Field.value).Perm (funcs.map FuncArg.value)

/-! ### Fields below fields -/

variable {fields : List Field} {field : Field} {funcs : List FuncArg} {query next : QueryConfig}

theorem fieldWalk_cons {β : Type} (fn : Field → Option β) (f : Field) (fs : List Field) :
    fieldWalk fn (f :: fs) = (fn f).toList ++ fieldWalk fn f.args ++ fieldWalk fn fs := by
  cases f
  rw [fieldWalk, walkField]
  rfl

mutual

theorem of_mem_walkField {β : Type} {fn : Field → Option β} {b : β} : ∀ f : Field, b ∈ walkField fn f → ∃ g, fn g = some b
  | .mk value type aliasName args, h => by
    rw [walkField, List.mem_append, Option.mem_toList] at h
    rcases h with h | h
    · exact ⟨_, h⟩
    · exact of_mem_fieldWalk args h

theorem of_mem_fieldWalk {β : Type} {fn : Field → Option β} {b : β} : ∀ fs : List Field, b ∈ fieldWalk fn fs → ∃ g, fn g = some b
  | [], h => absurd h List.not_mem_nil
  | f :: fs, h => by
    rw [fieldWalk, List.mem_append] at h
    rcases h with h | h
    · exact of_mem_walkField f h
    · exact of_mem_fieldWalk fs h

end

theorem type_of_mem_getFieldsDeep {f : Field} (h : f ∈ getFieldsDeep fields) : f.type = .field := by
  obtain ⟨g, hg⟩ := of_mem_fieldWalk _ ((uniqBy_sublist _).subset h)
  rw [Option.ite_none_right_eq_some] at hg
  exact Option.some_inj.mp hg.2 ▸ hg.1

theorem nodup_fieldNamesDeep (fields : List Field) : (fieldNamesDeep fields).Nodup := nodup_uniqBy _

theorem hasField_iff {x : String} : hasField x fields ↔ x ∈ fieldNamesDeep fields := by
  rw [hasField, List.any_eq_true]
  constructor
  · rintro ⟨y, hy, hxy⟩
    exact of_decide_eq_true hxy ▸ hy
  · exact fun h => ⟨x, h, decide_eq_true rfl⟩

theorem mem_fieldNamesDeep {x : String} : x ∈ fieldNamesDeep fields ↔
    ∃ f ∈ fields, (f.type = .field ∧ f.value = x) ∨ x ∈ fieldNamesDeep f.args := by
  rw [fieldNamesDeep, getFieldsDeep, mem_map_uniqBy]
  induction fields with
  | nil => exact iff_of_false List.not_mem_nil fun ⟨_, hf, _⟩ => List.not_mem_nil hf
  | cons f fs ih =>
    rw [fieldWalk_cons, List.map_append, List.map_append, List.mem_append, List.mem_append, ih, List.exists_mem_cons_iff]
    refine or_congr_left (or_congr ?_ ?_)
    · split_ifs with htype
      · exact (List.mem_singleton.trans eq_comm).trans (and_iff_right htype).symm
      · exact iff_of_false List.not_mem_nil fun h => htype h.1
    · rw [fieldNamesDeep, getFieldsDeep, mem_map_uniqBy]

theorem fieldNamesDeep_plain (x : String) : fieldNamesDeep [plain x] = [x] := rfl

theorem ofField_iff {x : String} {f : Field} : OfField x f ↔ x ∈ fieldNamesDeep f.args := hasField_iff

/-! ### Well-formed queries of one kind -/

theorem everyTopField_iff : everyTopField fields ↔ ∀ f ∈ fields, f.type = .field := by
  rw [everyTopField, List.all_eq_true]
  exact forall₂_congr fun _ _ => decide_eq_true_iff

theorem getFunctions_plain (h : ∀ f ∈ fields, f.type = .field) : getFunctions fields = [] := by
  refine List.filter_eq_nil_iff.mpr fun f hf => ?_
  rw [h f hf]
  exact Bool.not_eq_true _ |>.mpr rfl

theorem getFunctions_functions (h : AllFunctions fields) : getFunctions fields = fields :=
  List.filter_eq_self.mpr fun f hf => decide_eq_true (h f hf).1

theorem wellFormed_plain_iff (h : ∀ f ∈ query.fields, f.type = .field) : WellFormed query ↔
    (query.fields.map Field.value).Nodup ∧ ∀ key values, query.tags.get? key = some values → values ≠ [] ∧ values.Nodup := by
  have hself : (query.fields.filter fun f => f.type = .field) = query.fields :=
    List.filter_eq_self.mpr fun f hf => decide_eq_true (h f hf)
  constructor
  · intro hq
    exact ⟨hself ▸ hq.fields, hq.tags⟩
  · rintro ⟨hfields, htags⟩
    refine ⟨.inl h, hself.symm ▸ hfields, ?_, ?_, htags⟩
    · rw [pairs, getFunctions_plain h]
      exact List.nodup_nil
    · rw [aliases, getFunctions_plain h]
      exact List.nodup_nil

theorem wellFormed_functions_iff (h : AllFunctions query.fields) : WellFormed query ↔
    (pairs query.fields).Nodup ∧ (aliases query.fields).Nodup ∧
      ∀ key values, query.tags.get? key = some values → values ≠ [] ∧ values.Nodup := by
  constructor
  · exact fun hq => ⟨hq.pairs, hq.aliases, hq.tags⟩
  · rintro ⟨hpairs, haliases, htags⟩
    refine ⟨.inr h, ?_, hpairs, haliases, htags⟩
    have hnone : (query.fields.filter fun f => f.type = .field) = [] := by
      refine List.filter_eq_nil_iff.mpr fun f hf => ?_
      rw [(h f hf).1]
      exact Bool.not_eq_true _ |>.mpr rfl
    rw [hnone]
    exact List.nodup_nil

/-! ### Applying functions to plain fields -/

theorem foldlM_append_one {α β : Type} {F : List β → α → Option (List β)} (g : α → β) : ∀ {l : List α} {acc : List β},
    (∀ acc, ∀ a ∈ l, F acc a = some (acc ++ [g a])) → l.foldlM F acc = some (acc ++ l.map g)
  | [], acc, _ => by rw [List.map_nil, List.append_nil]; rfl
  | a :: l, acc, h => by
    rw [List.foldlM_cons, h acc a List.mem_cons_self, List.map_cons, List.append_cons acc (g a) (l.map g)]
    exact foldlM_append_one g fun acc b hb => h acc b (List.mem_cons_of_mem _ hb)

theorem applyFuncsToField_plain (h : ∀ f ∈ query.fields, f.type = .field) (groupBy : GroupBy) :
    applyFuncsToField query field funcs groupBy =
      some { query with fields := query.fields.flatMap fun f => funcs.map (applied f), groupBy } := by
  have hfold : query.fields.foldlM (applyTo field funcs) [] =
      some ([] ++ query.fields.map fun f => .inr (funcs.map (applied f))) :=
    foldlM_append_one _ fun acc f hf => if_pos (h f hf)
  rw [applyFuncsToField, hfold, Option.map_some, List.nil_append, List.flatMap_map]
  rfl

/-! ### Applying functions beside functions -/

/-- One function of the query, among functions that are there. -/
def placed (field : Field) (funcs : List FuncArg) (acc : List Field) (f : Field) : List Field :=
  if Named field.value f then
    acc ++ (funcs.filter fun func => !(getFuncsByFieldName field.value acc).any fun a => a.value = func.value).map (replaced field)
  else acc ++ [f]

/-- The functions of a field, the first of them replaced. -/
def replaceFirst (field : Field) (funcs : List FuncArg) : List Field → List Field
  | [] => []
  | f :: fs => if Named field.value f then funcs.map (replaced field) ++ fs.filter (¬Named field.value ·)
    else f :: replaceFirst field funcs fs

theorem applyTo_function {f : Field} (htype : f.type = .func) (hargs : f.args ≠ []) (acc : List Field) :
    applyTo field funcs (acc.map .inl) f = some ((placed field funcs acc f).map .inl) := by
  have hlefts : (acc.map (Sum.inl : Field → Field ⊕ List Field)).filterMap Sum.getLeft? = acc := by
    rw [List.filterMap_map]
    exact List.filterMap_some
  rw [applyTo, if_neg (htype ▸ TimeShifts.FieldType.noConfusion), arguments, if_neg (List.isEmpty_iff.not.mpr hargs), Option.map_some, placed, hlefts]
  congr 1
  cases hfind : f.args.find? fun a => a.value = field.value with
  | none =>
    have hnot : ¬Named field.value f := fun ⟨a, ha, hname⟩ => List.find?_eq_none.mp hfind a ha (decide_eq_true hname)
    rw [if_neg hnot, List.map_append]
    rfl
  | some a =>
    have hname : a.value = field.value := by simpa using List.find?_some hfind
    rw [if_pos ⟨a, List.mem_of_find?_eq_some hfind, hname⟩, List.map_append, List.map_map]
    simp only [hname]
    rfl

theorem foldlM_applyTo (h : AllFunctions fields) : ∀ acc : List Field,
    fields.foldlM (applyTo field funcs) (acc.map .inl) = some ((fields.foldl (placed field funcs) acc).map .inl) := by
  induction fields with
  | nil => exact fun acc => rfl
  | cons f fs ih =>
    intro acc
    rw [List.foldlM_cons, applyTo_function (h f List.mem_cons_self).1 (h f List.mem_cons_self).2]
    exact ih (fun g hg => h g (List.mem_cons_of_mem _ hg)) _

theorem getFuncsByFieldName_append (x : String) (as bs : List Field) :
    getFuncsByFieldName x (as ++ bs) = getFuncsByFieldName x as ++ getFuncsByFieldName x bs := by
  rw [getFuncsByFieldName, getFunctions, List.filter_append, List.filter_append]
  rfl

theorem mem_getFuncsByFieldName {x : String} {f : Field} : f ∈ getFuncsByFieldName x fields ↔ f ∈ fields ∧ f.type = .func ∧ Named x f := by
  rw [getFuncsByFieldName, getFunctions, List.mem_filter, List.mem_filter, decide_eq_true_iff, List.any_eq_true, and_assoc]
  simp only [decide_eq_true_iff]
  rfl

/-- Once they are there, no more functions of the field come. -/
theorem foldl_placed_after : ∀ {fs acc : List Field}, (∀ func ∈ funcs, ∃ g ∈ getFuncsByFieldName field.value acc, g.value = func.value) →
    fs.foldl (placed field funcs) acc = acc ++ fs.filter (¬Named field.value ·)
  | [], acc, _ => (List.append_nil acc).symm
  | f :: fs, acc, h => by
    rw [List.foldl_cons, List.filter_cons]
    by_cases hf : Named field.value f
    · have hnone : (funcs.filter fun func => !(getFuncsByFieldName field.value acc).any fun a => a.value = func.value) = [] := by
        refine List.filter_eq_nil_iff.mpr fun func hfunc => ?_
        obtain ⟨g, hg, hvalue⟩ := h func hfunc
        rw [List.any_eq_true.mpr ⟨g, hg, decide_eq_true hvalue⟩]
        exact Bool.noConfusion
      rw [placed, if_pos hf, hnone, List.map_nil, List.append_nil, if_neg (by simpa using hf)]
      exact foldl_placed_after h
    · rw [placed, if_neg hf, if_pos (by simpa using hf), List.append_cons acc f (fs.filter _)]
      refine foldl_placed_after fun func hfunc => ?_
      obtain ⟨g, hg, hvalue⟩ := h func hfunc
      exact ⟨g, getFuncsByFieldName_append _ acc [f] ▸ List.mem_append_left _ hg, hvalue⟩

theorem foldl_placed : ∀ {fs acc : List Field}, getFuncsByFieldName field.value acc = [] →
    fs.foldl (placed field funcs) acc = acc ++ replaceFirst field funcs fs
  | [], acc, _ => (List.append_nil acc).symm
  | f :: fs, acc, h => by
    rw [List.foldl_cons, replaceFirst]
    by_cases hf : Named field.value f
    · have hall : (funcs.filter fun func => !(getFuncsByFieldName field.value acc).any fun a => a.value = func.value) = funcs := by
        rw [h]
        exact List.filter_eq_self.mpr fun _ _ => rfl
      rw [placed, if_pos hf, if_pos hf, hall, ← List.append_assoc]
      refine foldl_placed_after fun func hfunc => ⟨replaced field func, mem_getFuncsByFieldName.mpr ?_, rfl⟩
      exact ⟨List.mem_append_right _ (List.mem_map_of_mem hfunc), rfl, field, List.mem_singleton_self _, rfl⟩
    · rw [placed, if_neg hf, if_neg hf, List.append_cons acc f (replaceFirst field funcs fs)]
      refine foldl_placed ?_
      rw [getFuncsByFieldName_append, h, List.nil_append]
      refine List.eq_nil_iff_forall_not_mem.mpr fun g hg => hf ?_
      obtain ⟨hgf, -, hnamed⟩ := mem_getFuncsByFieldName.mp hg
      exact List.mem_singleton.mp hgf ▸ hnamed

theorem applyFuncsToField_functions (h : AllFunctions query.fields) (groupBy : GroupBy) :
    applyFuncsToField query field funcs groupBy = some { query with fields := replaceFirst field funcs query.fields, groupBy } := by
  have hfold : query.fields.foldlM (applyTo field funcs) (List.map .inl []) =
      some ((query.fields.foldl (placed field funcs) []).map .inl) := foldlM_applyTo h []
  rw [List.map_nil, foldl_placed rfl, List.nil_append] at hfold
  rw [applyFuncsToField, hfold, Option.map_some, List.flatMap_map]
  refine congrArg (fun fields => some { query with fields, groupBy }) ?_
  exact List.flatMap_singleton' _

theorem replaceFirst_of_none (h : ¬∃ f ∈ fields, Named field.value f) : replaceFirst field funcs fields = fields := by
  induction fields with
  | nil => rfl
  | cons f fs ih =>
    rw [replaceFirst, if_neg fun hf => h ⟨f, List.mem_cons_self, hf⟩, ih fun ⟨g, hg, hnamed⟩ => h ⟨g, List.mem_cons_of_mem _ hg, hnamed⟩]

/-- The functions that stay, and the chosen ones. -/
theorem replaceFirst_perm (h : ∃ f ∈ fields, Named field.value f) :
    (replaceFirst field funcs fields).Perm (fields.filter (¬Named field.value ·) ++ funcs.map (replaced field)) := by
  induction fields with
  | nil => exact absurd h fun ⟨_, hf, _⟩ => List.not_mem_nil hf
  | cons f fs ih =>
    rw [replaceFirst, List.filter_cons]
    by_cases hf : Named field.value f
    · rw [if_pos hf, if_neg (by simpa using hf)]
      exact List.perm_append_comm
    · rw [if_neg hf, if_pos (by simpa using hf), List.cons_append]
      refine (ih ?_).cons f
      obtain ⟨g, hg, hnamed⟩ := h
      rcases List.mem_cons.mp hg with rfl | hg
      · exact absurd hnamed hf
      · exact ⟨g, hg, hnamed⟩

/-- What is not chosen is left in its order. -/
theorem filter_replaceFirst (p : Field → Bool) (hp : ∀ func, p (replaced field func) = false) (h : ∃ f ∈ fields, Named field.value f) :
    (replaceFirst field funcs fields).filter p = (fields.filter (¬Named field.value ·)).filter p := by
  have hnew : (funcs.map (replaced field)).filter p = [] := by
    refine List.filter_eq_nil_iff.mpr fun g hg => ?_
    obtain ⟨func, -, rfl⟩ := List.mem_map.mp hg
    exact Bool.not_eq_true _ |>.mpr (hp func)
  induction fields with
  | nil => exact absurd h fun ⟨_, hf, _⟩ => List.not_mem_nil hf
  | cons f fs ih =>
    rw [replaceFirst, List.filter_cons]
    by_cases hf : Named field.value f
    · rw [if_pos hf, if_neg (by simpa using hf), List.filter_append, hnew, List.nil_append]
    · obtain ⟨g, hg, hnamed⟩ := h
      have hrest : ∃ f ∈ fs, Named field.value f := by
        rcases List.mem_cons.mp hg with rfl | hg
        · exact absurd hnamed hf
        · exact ⟨g, hg, hnamed⟩
      rw [if_neg hf, if_pos (by simpa using hf), List.filter_cons, List.filter_cons, ih hrest]

/-! ### Functions applied exactly -/

theorem filter_filter_eq_iff {α : Type} {p q : α → Bool} {l : List α} :
    (l.filter q).filter p = l.filter p ↔ ∀ a ∈ l, p a → q a := by
  constructor
  · intro h a ha hp
    have hmem : a ∈ (l.filter q).filter p := h ▸ List.mem_filter.mpr ⟨ha, hp⟩
    exact (List.mem_filter.mp (List.mem_of_mem_filter hmem)).2
  · intro h
    rw [List.filter_filter]
    refine List.filter_congr fun a ha => ?_
    cases hp : p a with
    | false => rfl
    | true => rw [h a ha hp]; rfl

theorem ofField_replaced (x : String) (func : FuncArg) : OfField x (replaced (plain x) func) :=
  ofField_iff.mpr (List.mem_singleton_self x)

theorem named_replaced (x : String) (func : FuncArg) : Named x (replaced (plain x) func) :=
  ⟨plain x, List.mem_singleton_self _, rfl⟩

theorem forall_replaced (x : String) : ∀ f ∈ funcs.map (replaced (plain x)), decide (OfField x f) = true := by
  intro f hf
  obtain ⟨func, -, rfl⟩ := List.mem_map.mp hf
  exact decide_eq_true (ofField_replaced x func)

theorem perm_append_right_iff_nil {α : Type} (as bs : List α) : (as ++ bs).Perm bs ↔ as = [] := by
  constructor
  · intro h
    have hlength := h.length_eq
    rw [List.length_append] at hlength
    exact List.length_eq_zero_iff.mp (by omega)
  · rintro rfl
    exact List.Perm.refl bs

theorem appliedExactly_iff (x : String) (funcs : List FuncArg) (fields : List Field) :
    AppliedExactly x funcs fields (replaceFirst (plain x) funcs fields) ↔ Exact fields x funcs := by
  rw [Exact]
  split_ifs with hnamed
  · have hperm : (replaceFirst (plain x) funcs fields).Perm (fields.filter (¬Named x ·) ++ funcs.map (replaced (plain x))) :=
      replaceFirst_perm hnamed
    have hothers : (replaceFirst (plain x) funcs fields).filter (¬OfField x ·) = fields.filter (¬OfField x ·) ↔
        ∀ f ∈ fields, ¬OfField x f → ¬Named x f := by
      rw [filter_replaceFirst _ (fun func => by simpa using ofField_replaced x func) hnamed, filter_filter_eq_iff]
      simp only [decide_eq_true_iff]
      rfl
    have hchosen : (((replaceFirst (plain x) funcs fields).filter (OfField x ·)).map Field.value).Perm (funcs.map FuncArg.value) ↔
        ∀ f ∈ fields, OfField x f → Named x f := by
      have hvalues := (hperm.filter (OfField x ·)).map Field.value
      rw [List.filter_append, List.filter_eq_self.mpr (forall_replaced x), List.map_append, List.map_map] at hvalues
      rw [hvalues.congr_left]
      refine (perm_append_right_iff_nil _ _).trans ?_
      rw [List.map_eq_nil_iff, List.filter_filter, List.filter_eq_nil_iff]
      refine forall₂_congr fun f _ => ?_
      rw [Bool.and_eq_true, decide_eq_true_iff, decide_eq_true_iff, not_and, not_not]
    constructor
    · rintro ⟨hsame, hkept, hrest⟩
      have hdirect := hchosen.mp hsame
      refine ⟨fun f hf => ⟨fun hn => by_contra fun hnot => hothers.mp hrest f hf hnot hn, hdirect f hf⟩, fun f hf hof hvalue => ?_⟩
      rcases List.mem_append.mp (hperm.mem_iff.mp (hkept f hf hof hvalue)) with hstay | hnew
      · exact absurd (hdirect f hf hof) (of_decide_eq_true (List.mem_filter.mp hstay).2)
      · obtain ⟨func, -, rfl⟩ := List.mem_map.mp hnew
        rfl
    · rintro ⟨hnames, hform⟩
      refine ⟨hchosen.mpr fun f hf => (hnames f hf).mpr, fun f hf hof hvalue => ?_, hothers.mpr fun f hf hnot hn => hnot ((hnames f hf).mp hn)⟩
      obtain ⟨func, hfunc, heq⟩ := List.mem_map.mp hvalue
      refine hperm.mem_iff.mpr (List.mem_append_right _ (List.mem_map.mpr ⟨func, hfunc, ?_⟩))
      rw [hform f hf hof hvalue, ← heq]
      rfl
  · rw [AppliedExactly, replaceFirst_of_none hnamed]
    exact ⟨fun h => h.1, fun h => ⟨h, fun f hf _ _ => hf, rfl⟩⟩

/-! ### What a step keeps -/

def TagsWellFormed (tags : Props (List String)) : Prop := ∀ key values, tags.get? key = some values → values ≠ [] ∧ values.Nodup

theorem mem_pairs {p : String × String} : p ∈ pairs fields ↔ ∃ f ∈ fields, f.type = .func ∧ p.1 = f.value ∧ p.2 ∈ fieldNamesDeep f.args := by
  rw [pairs, List.mem_flatMap]
  constructor
  · rintro ⟨f, hf, hp⟩
    obtain ⟨hmem, htype⟩ := List.mem_filter.mp hf
    obtain ⟨x, hx, rfl⟩ := List.mem_map.mp hp
    exact ⟨f, hmem, of_decide_eq_true htype, rfl, hx⟩
  · rintro ⟨f, hf, htype, hvalue, hx⟩
    exact ⟨f, List.mem_filter.mpr ⟨hf, decide_eq_true htype⟩, List.mem_map.mpr ⟨p.2, hx, Prod.ext hvalue.symm rfl⟩⟩

theorem mem_aliases {name : String} : name ∈ aliases fields ↔ name ≠ "" ∧ ∃ f ∈ fields, f.type = .func ∧ f.aliasName = name := by
  rw [aliases, List.mem_filter, decide_eq_true_iff, and_comm, List.mem_map]
  refine and_congr_right fun _ => ⟨fun ⟨f, hf, hname⟩ => ?_, fun ⟨f, hf, htype, hname⟩ => ?_⟩
  · exact ⟨f, List.mem_of_mem_filter hf, of_decide_eq_true (List.mem_filter.mp hf).2, hname⟩
  · exact ⟨f, List.mem_filter.mpr ⟨hf, decide_eq_true htype⟩, hname⟩

theorem pairs_append (as bs : List Field) : pairs (as ++ bs) = pairs as ++ pairs bs := by
  rw [pairs, getFunctions, List.filter_append, List.flatMap_append]
  rfl

theorem aliases_append (as bs : List Field) : aliases (as ++ bs) = aliases as ++ aliases bs := by
  rw [aliases, getFunctions, List.filter_append, List.map_append, List.filter_append]
  rfl

theorem pairs_perm {as bs : List Field} (h : as.Perm bs) : (pairs as).Perm (pairs bs) := (h.filter _).flatMap_right _

theorem aliases_perm {as bs : List Field} (h : as.Perm bs) : (aliases as).Perm (aliases bs) := ((h.filter _).map _).filter _

theorem WellFormed.of_sublist (h : WellFormed query) (hfields : next.fields.Sublist query.fields) (htags : next.tags = query.tags) :
    WellFormed next where
  kinds := h.kinds.imp (fun hplain f hf => hplain f (hfields.subset hf)) fun hfuncs f hf => hfuncs f (hfields.subset hf)
  fields := h.fields.sublist ((hfields.filter _).map _)
  pairs := by
    refine h.pairs.sublist ?_
    exact (hfields.filter _).flatMap _
  aliases := h.aliases.sublist (((hfields.filter _).map _).filter _)
  tags := htags ▸ h.tags

theorem wellFormed_of_default : WellFormed defaultQueryConfig where
  kinds := .inl nofun
  fields := List.nodup_nil
  pairs := List.nodup_nil
  aliases := List.nodup_nil
  tags := nofun

theorem foldlM_filter {α : Type} {F : List α → α → Option (List α)} (p : α → Bool) : ∀ {l acc : List α},
    (∀ acc, ∀ a ∈ l, F acc a = some (if p a then acc else acc ++ [a])) → l.foldlM F acc = some (acc ++ l.filter fun a => !p a)
  | [], acc, _ => by rw [List.filter_nil, List.append_nil]; rfl
  | a :: l, acc, h => by
    have hrest : ∀ acc, ∀ b ∈ l, F acc b = some (if p b then acc else acc ++ [b]) := fun acc b hb => h acc b (List.mem_cons_of_mem _ hb)
    rw [List.foldlM_cons, h acc a List.mem_cons_self, List.filter_cons]
    cases p a with
    | true => exact foldlM_filter p hrest
    | false =>
      refine (foldlM_filter p hrest).trans (congrArg some ?_)
      exact (List.append_cons acc a (l.filter fun b => !p b)).symm

theorem removeField_sublist (hkinds : (∀ f ∈ fields, f.type = .field) ∨ AllFunctions fields) (x : String) :
    ∃ newFields, removeField x fields = some newFields ∧ newFields.Sublist fields := by
  rw [removeField]
  split_ifs with h
  · exact ⟨_, rfl, List.filter_sublist⟩
  · have hfuncs := hkinds.resolve_left fun hplain => h (everyTopField_iff.mpr hplain)
    refine ⟨_, foldlM_filter (fun f => hasField x f.args) fun acc f hf => ?_, List.filter_sublist⟩
    rw [arguments, if_neg (List.isEmpty_iff.not.mpr (hfuncs f hf).2)]
    rfl

theorem aliases_one {f : Field} (htype : f.type = .func) (hname : f.aliasName ≠ "") : aliases [f] = [f.aliasName] := by
  rw [aliases, getFunctions, List.filter_singleton, decide_eq_true htype, cond_true, List.map_singleton, List.filter_singleton,
    decide_eq_true hname, cond_true]

theorem aliases_initial (value : String) : aliases [buildInitialField value] = ["mean_" ++ value] :=
  aliases_one (f := buildInitialField value) rfl fun hempty => absurd (String.append_eq_empty_iff.mp hempty).1 (by decide)

theorem nodup_append_singleton {α : Type} {l : List α} {a : α} : (l ++ [a]).Nodup ↔ l.Nodup ∧ a ∉ l := by
  rw [(List.perm_append_singleton a l).nodup_iff, List.nodup_cons, and_comm]

/-! ### Steps -/

theorem wellFormed_toggle_iff (h : WellFormed query) (value : String) :
    (∃ next, toggleField query value = some next ∧ WellFormed next) ↔ Meets query (.toggleField value) := by
  rw [toggleField, Meets]
  by_cases hselected : hasField value query.fields
  · obtain ⟨newFields, hremove, hsublist⟩ := removeField_sublist h.kinds value
    rw [if_pos hselected, hremove]
    refine iff_of_true ⟨_, rfl, ?_⟩ fun hnot => absurd hselected hnot
    dsimp only
    split_ifs with hempty
    · exact h.of_sublist (List.nil_sublist _) rfl
    · exact h.of_sublist hsublist rfl
  · rw [if_neg hselected]
    have hnew : value ∉ fieldNamesDeep query.fields := fun hmem => hselected (hasField_iff.mpr hmem)
    by_cases hfuncs : getFunctions query.fields = []
    · have hplain : ∀ f ∈ query.fields, f.type = .field := by
        rcases h.kinds with hplain | hall
        · exact hplain
        · rw [← getFunctions_functions hall, hfuncs]
          exact nofun
      rw [if_pos (List.isEmpty_iff.mpr hfuncs)]
      refine iff_of_true ⟨_, rfl, ?_⟩ fun _ f hf htype => absurd ((hplain f hf).symm.trans htype) TimeShifts.FieldType.noConfusion
      have hplain' : ∀ f ∈ query.fields ++ [plain value], f.type = .field := fun f hf => by
        rcases List.mem_append.mp hf with hf | hf
        · exact hplain f hf
        · rw [List.mem_singleton.mp hf]; rfl
      refine (wellFormed_plain_iff hplain').mpr ⟨?_, h.tags⟩
      rw [List.map_append, List.map_singleton]
      refine nodup_append_singleton.mpr ⟨((wellFormed_plain_iff hplain).mp h).1, fun hmem => hnew ?_⟩
      obtain ⟨f, hf, hvalue⟩ := List.mem_map.mp hmem
      exact mem_fieldNamesDeep.mpr ⟨f, hf, .inl ⟨hplain f hf, hvalue⟩⟩
    · have hall : AllFunctions query.fields := h.kinds.resolve_left fun hplain => hfuncs (getFunctions_plain hplain)
      rw [if_neg (List.isEmpty_iff.not.mpr hfuncs)]
      have hall' : AllFunctions (query.fields ++ [buildInitialField value]) := fun f hf => by
        rcases List.mem_append.mp hf with hf | hf
        · exact hall f hf
        · rw [List.mem_singleton.mp hf]; exact ⟨rfl, List.cons_ne_nil _ _⟩
      have hpairs : (pairs (query.fields ++ [buildInitialField value])).Nodup := by
        rw [pairs_append]
        refine nodup_append_singleton.mpr ⟨h.pairs, fun hmem => hnew ?_⟩
        obtain ⟨f, hf, -, -, hx⟩ := mem_pairs.mp hmem
        exact mem_fieldNamesDeep.mpr ⟨f, hf, .inr hx⟩
      have haliases : (aliases (query.fields ++ [buildInitialField value])).Nodup ↔
          ∀ f ∈ query.fields, f.type = .func → f.aliasName ≠ "mean_" ++ value := by
        have hname : "mean_" ++ value ≠ "" := fun hempty => absurd (String.append_eq_empty_iff.mp hempty).1 (by decide)
        rw [aliases_append, aliases_initial, nodup_append_singleton, and_iff_right h.aliases, mem_aliases, not_and]
        exact ⟨fun hno f hf htype heq => hno hname ⟨f, hf, htype, heq⟩, fun hno _ ⟨f, hf, htype, heq⟩ => hno f hf htype heq⟩
      rw [← haliases, forall_prop_of_true hselected]
      constructor
      · rintro ⟨next, hsome, hnext⟩
        obtain rfl := Option.some_inj.mp hsome
        exact hnext.aliases
      · exact fun hnodup => ⟨_, rfl, (wellFormed_functions_iff hall').mpr ⟨hpairs, hnodup, h.tags⟩⟩

theorem wellFormed_addInitialField (h : WellFormed query) (value : String) (groupBy : GroupBy) :
    WellFormed (addInitialField query value groupBy) := by
  have hall : AllFunctions [buildInitialField value] := fun f hf => by
    rw [List.mem_singleton.mp hf]
    exact ⟨rfl, List.cons_ne_nil _ _⟩
  refine (wellFormed_functions_iff hall).mpr ⟨List.nodup_singleton _, ?_, h.tags⟩
  exact aliases_initial value ▸ List.nodup_singleton _

theorem wellFormed_removeFuncs (h : WellFormed query) (fields : List Field) : WellFormed (removeFuncs query fields) :=
  (wellFormed_plain_iff fun _ hf => type_of_mem_getFieldsDeep hf).mpr ⟨nodup_fieldNamesDeep fields, h.tags⟩

theorem WellFormed.of_tags (h : WellFormed query) {tags : Props (List String)}
    (htags : ∀ key values, tags.get? key = some values → values ≠ [] ∧ values.Nodup) : WellFormed { query with tags } :=
  ⟨h.kinds, h.fields, h.pairs, h.aliases, htags⟩

theorem tags_set (h : WellFormed query) {key : String} {values : List String} (hne : values ≠ []) (hnodup : values.Nodup) :
    WellFormed { query with tags := query.tags.set key values } := by
  refine h.of_tags fun key' values' hget => ?_
  rw [Props.get?_set] at hget
  split_ifs at hget
  · exact Option.some_inj.mp hget ▸ ⟨hne, hnodup⟩
  · exact h.tags key' values' hget

theorem wellFormed_chooseTag_iff (h : WellFormed query) (key value : String) :
    (∃ next, chooseTag query key value = some next ∧ WellFormed next) ↔ Meets query (.chooseTag key value) := by
  rw [chooseTag, Meets]
  cases hget : query.tags.get? key with
  | none =>
    simp only [List.contains_iff_mem, ne_eq, not_true_eq_false, imp_false]
    split_ifs with hinherited
    · exact iff_of_false nofun (not_not_intro hinherited)
    · exact iff_of_true ⟨_, rfl, tags_set h (List.cons_ne_nil _ _) (List.nodup_singleton value)⟩ hinherited
  | some tagValues =>
    obtain ⟨hne, hnodup⟩ := h.tags key tagValues hget
    refine iff_of_true ?_ fun _ => Option.some_ne_none tagValues
    simp only [List.contains_iff_mem]
    split_ifs with hsingle hmem
    · refine ⟨_, rfl, h.of_tags fun key' values hvalues => ?_⟩
      exact h.tags key' values (Props.get?_delete.mp hvalues).2
    · refine ⟨_, rfl, tags_set h (fun hempty => hsingle ?_) (hnodup.erase value)⟩
      have hlength := List.length_erase_of_mem hmem
      rw [hempty, List.length_nil] at hlength
      obtain ⟨v, rfl⟩ := List.length_eq_one_iff.mp (le_antisymm (by omega) (List.length_pos_iff.mpr hne))
      rw [List.mem_singleton.mp hmem]
    · refine ⟨_, rfl, tags_set h (fun hempty => ?_) (nodup_append_singleton.mpr ⟨hnodup, hmem⟩)⟩
      exact List.cons_ne_nil _ _ (List.append_eq_nil_iff.mp hempty).2

theorem wellFormed_groupByTag (h : WellFormed query) (tagKey : String) : WellFormed (groupByTag query tagKey) :=
  ⟨h.kinds, h.fields, h.pairs, h.aliases, h.tags⟩

theorem nodup_map_pair {x : String} : (funcs.map fun func => (func.value, x)).Nodup ↔ (funcs.map FuncArg.value).Nodup := by
  have hmap : (funcs.map fun func => (func.value, x)) = (funcs.map FuncArg.value).map fun value => (value, x) := by
    rw [List.map_map]
    rfl
  rw [hmap]
  exact List.nodup_map_iff fun a b heq => (Prod.mk.inj heq).1

theorem nodup_pairs_applied (hvalues : (fields.map Field.value).Nodup) :
    (fields.flatMap fun f => funcs.map fun func => (func.value, f.value)).Nodup ↔ (fields ≠ [] → (funcs.map FuncArg.value).Nodup) := by
  rw [List.nodup_flatMap]
  constructor
  · rintro ⟨hone, -⟩ hne
    obtain ⟨f, hf⟩ := List.exists_mem_of_ne_nil fields hne
    exact nodup_map_pair.mp (hone f hf)
  · intro h
    refine ⟨fun f hf => nodup_map_pair.mpr (h (List.ne_nil_of_mem hf)), ?_⟩
    refine (List.pairwise_map.mp hvalues).imp fun {f g} hne p hp hp' => hne ?_
    obtain ⟨_, -, rfl⟩ := List.mem_map.mp hp
    obtain ⟨_, -, heq⟩ := List.mem_map.mp hp'
    exact (Prod.mk.inj heq).2.symm

theorem aliasName_applied_ne (f : Field) (func : FuncArg) : (applied f func).aliasName ≠ "" := by
  show (if func.aliasName = "" then func.value ++ "_" ++ f.value else func.aliasName) ≠ ""
  split_ifs with h
  · exact fun hempty => absurd (String.append_eq_empty_iff.mp (String.append_eq_empty_iff.mp hempty).1).2 (by decide)
  · exact h

theorem wellFormed_apply_plain_iff (h : WellFormed query) (hplain : ∀ f ∈ query.fields, f.type = .field) (groupBy : GroupBy) :
    WellFormed { query with fields := query.fields.flatMap fun f => funcs.map (applied f), groupBy } ↔
      (query.fields ≠ [] → (funcs.map FuncArg.value).Nodup) ∧
        (query.fields.flatMap fun f => funcs.map fun func => (applied f func).aliasName).Nodup := by
  have hall : AllFunctions (query.fields.flatMap fun f => funcs.map (applied f)) := fun g hg => by
    obtain ⟨f, -, hg⟩ := List.mem_flatMap.mp hg
    obtain ⟨func, -, rfl⟩ := List.mem_map.mp hg
    exact ⟨rfl, List.cons_ne_nil _ _⟩
  have hpairs : pairs (query.fields.flatMap fun f => funcs.map (applied f)) =
      query.fields.flatMap fun f => funcs.map fun func => (func.value, f.value) := by
    rw [pairs, getFunctions_functions hall, List.flatMap_assoc]
    refine List.flatMap_congr fun f _ => ?_
    rw [List.flatMap_map]
    exact List.flatMap_pure_eq_map (fun func : FuncArg => (func.value, f.value)) funcs
  have haliases : aliases (query.fields.flatMap fun f => funcs.map (applied f)) =
      query.fields.flatMap fun f => funcs.map fun func => (applied f func).aliasName := by
    rw [aliases, getFunctions_functions hall, List.map_flatMap]
    simp only [List.map_map]
    refine List.filter_eq_self.mpr fun name hname => decide_eq_true ?_
    obtain ⟨f, -, hname⟩ := List.mem_flatMap.mp hname
    obtain ⟨func, -, rfl⟩ := List.mem_map.mp hname
    exact aliasName_applied_ne f func
  rw [wellFormed_functions_iff hall]
  dsimp only
  rw [hpairs, haliases, nodup_pairs_applied ((wellFormed_plain_iff hplain).mp h).1]
  exact ⟨fun hnext => ⟨hnext.1, hnext.2.1⟩, fun hnext => ⟨hnext.1, hnext.2, h.tags⟩⟩

theorem allFunctions_replaced (x : String) : AllFunctions (funcs.map (replaced (plain x))) := by
  intro f hf
  obtain ⟨func, -, rfl⟩ := List.mem_map.mp hf
  exact ⟨rfl, List.cons_ne_nil _ _⟩

theorem pairs_replaced (x : String) : pairs (funcs.map (replaced (plain x))) = funcs.map fun func => (func.value, x) := by
  rw [pairs, getFunctions_functions (allFunctions_replaced x), List.flatMap_map]
  exact List.flatMap_pure_eq_map (fun func : FuncArg => (func.value, x)) funcs

theorem aliases_replaced (x : String) : aliases (funcs.map (replaced (plain x))) = funcs.map fun func => func.value ++ "_" ++ x := by
  rw [aliases, getFunctions_functions (allFunctions_replaced x), List.map_map]
  refine List.filter_eq_self.mpr fun name hname => decide_eq_true ?_
  obtain ⟨func, -, rfl⟩ := List.mem_map.mp hname
  exact fun hempty => absurd (String.append_eq_empty_iff.mp (String.append_eq_empty_iff.mp hempty).1).2 (by decide)

theorem nodup_map_alias {x : String} : (funcs.map fun func => func.value ++ "_" ++ x).Nodup ↔ (funcs.map FuncArg.value).Nodup := by
  have hmap : (funcs.map fun func => func.value ++ "_" ++ x) = (funcs.map FuncArg.value).map fun value => value ++ "_" ++ x := by
    rw [List.map_map]
    rfl
  rw [hmap]
  exact List.nodup_map_iff fun a b heq => String.append_left_inj _ |>.mp (String.append_left_inj _ |>.mp heq)

theorem wellFormed_apply_functions_iff (h : WellFormed query) (hall : AllFunctions query.fields) (x : String) (groupBy : GroupBy) :
    WellFormed { query with fields := replaceFirst (plain x) funcs query.fields, groupBy } ↔
      ((∃ f ∈ query.fields, Named x f) → (funcs.map FuncArg.value).Nodup ∧ ∀ g ∈ query.fields, ¬Named x g → ∀ func ∈ funcs,
        g.aliasName ≠ func.value ++ "_" ++ x ∧ ¬(g.value = func.value ∧ hasField x g.args)) := by
  by_cases hnamed : ∃ f ∈ query.fields, Named x f
  · have hperm : (replaceFirst (plain x) funcs query.fields).Perm (query.fields.filter (¬Named x ·) ++ funcs.map (replaced (plain x))) :=
      replaceFirst_perm hnamed
    have hstay := List.filter_sublist (l := query.fields) (p := fun f => decide (¬Named x f))
    have hall' : AllFunctions (replaceFirst (plain x) funcs query.fields) := fun f hf => by
      rcases List.mem_append.mp (hperm.mem_iff.mp hf) with hf | hf
      · exact hall f (hstay.subset hf)
      · exact allFunctions_replaced x f hf
    rw [wellFormed_functions_iff hall', forall_prop_of_true hnamed]
    dsimp only
    rw [(pairs_perm hperm).nodup_iff, (aliases_perm hperm).nodup_iff, pairs_append, aliases_append, pairs_replaced, aliases_replaced,
      List.nodup_append, List.nodup_append, nodup_map_pair, nodup_map_alias]
    have hpairs : (∀ p ∈ pairs (query.fields.filter (¬Named x ·)), ∀ p' ∈ funcs.map fun func => (func.value, x), p ≠ p') ↔
        ∀ g ∈ query.fields, ¬Named x g → ∀ func ∈ funcs, ¬(g.value = func.value ∧ hasField x g.args) := by
      constructor
      · rintro hne g hg hnot func hfunc ⟨hvalue, hx⟩
        refine hne (g.value, x) (mem_pairs.mpr ⟨g, ?_, (hall g hg).1, rfl, hasField_iff.mp hx⟩) _ (List.mem_map_of_mem hfunc) (hvalue ▸ rfl)
        exact List.mem_filter.mpr ⟨hg, decide_eq_true hnot⟩
      · rintro hne p hp p' hp' rfl
        obtain ⟨g, hg, -, hvalue, hx⟩ := mem_pairs.mp hp
        obtain ⟨func, hfunc, rfl⟩ := List.mem_map.mp hp'
        exact hne g (hstay.subset hg) (of_decide_eq_true (List.mem_filter.mp hg).2) func hfunc ⟨hvalue.symm, hasField_iff.mpr hx⟩
    have haliases : (∀ a ∈ aliases (query.fields.filter (¬Named x ·)), ∀ b ∈ funcs.map fun func => func.value ++ "_" ++ x, a ≠ b) ↔
        ∀ g ∈ query.fields, ¬Named x g → ∀ func ∈ funcs, g.aliasName ≠ func.value ++ "_" ++ x := by
      constructor
      · intro hne g hg hnot func hfunc heq
        have hnonempty : g.aliasName ≠ "" := heq ▸ fun hempty =>
          absurd (String.append_eq_empty_iff.mp (String.append_eq_empty_iff.mp hempty).1).2 (by decide)
        refine hne g.aliasName (mem_aliases.mpr ⟨hnonempty, g, ?_, (hall g hg).1, rfl⟩) _ (List.mem_map_of_mem hfunc) heq
        exact List.mem_filter.mpr ⟨hg, decide_eq_true hnot⟩
      · rintro hne a ha b hb rfl
        obtain ⟨-, g, hg, -, hname⟩ := mem_aliases.mp ha
        obtain ⟨func, hfunc, heq⟩ := List.mem_map.mp hb
        exact hne g (hstay.subset hg) (of_decide_eq_true (List.mem_filter.mp hg).2) func hfunc (hname.trans heq.symm)
    rw [hpairs, haliases]
    constructor
    · rintro ⟨⟨-, hnames, hfree⟩, ⟨-, -, hfresh⟩, -⟩
      exact ⟨hnames, fun g hg hnot func hfunc => ⟨hfresh g hg hnot func hfunc, hfree g hg hnot func hfunc⟩⟩
    · rintro ⟨hnames, hfree⟩
      have hkept : WellFormed { query with fields := query.fields.filter (¬Named x ·) } := h.of_sublist hstay rfl
      exact ⟨⟨hkept.pairs, hnames, fun g hg hnot func hfunc => (hfree g hg hnot func hfunc).2⟩,
        ⟨hkept.aliases, hnames, fun g hg hnot func hfunc => (hfree g hg hnot func hfunc).1⟩, h.tags⟩
  · rw [replaceFirst_of_none hnamed]
    exact iff_of_true ⟨h.kinds, h.fields, h.pairs, h.aliases, h.tags⟩ fun hex => absurd hex hnamed

theorem wellFormed_apply_iff (h : WellFormed query) (x : String) (groupBy : GroupBy) :
    (∃ next, applyFuncsToField query (plain x) funcs groupBy = some next ∧ WellFormed next) ↔ Applies query.fields x funcs := by
  rw [Applies]
  split_ifs with htop
  · have hplain := everyTopField_iff.mp htop
    rw [applyFuncsToField_plain hplain, ← wellFormed_apply_plain_iff h hplain groupBy]
    exact ⟨fun ⟨_, hsome, hnext⟩ => Option.some_inj.mp hsome ▸ hnext, fun hnext => ⟨_, rfl, hnext⟩⟩
  · have hall := h.kinds.resolve_left fun hplain => htop (everyTopField_iff.mpr hplain)
    rw [applyFuncsToField_functions hall, ← wellFormed_apply_functions_iff h hall x groupBy]
    exact ⟨fun ⟨_, hsome, hnext⟩ => Option.some_inj.mp hsome ▸ hnext, fun hnext => ⟨_, rfl, hnext⟩⟩

theorem wellFormed_step_iff (h : WellFormed query) (action : Action) :
    (∃ next, step query action = some next ∧ WellFormed next) ↔ Meets query action := by
  cases action with
  | toggleField value => exact wellFormed_toggle_iff h value
  | addInitialField value groupBy => exact iff_of_true ⟨_, rfl, wellFormed_addInitialField h value groupBy⟩ trivial
  | applyFuncsToField field funcs groupBy => exact wellFormed_apply_iff h field groupBy
  | removeFuncs fields => exact iff_of_true ⟨_, rfl, wellFormed_removeFuncs h fields⟩ trivial
  | chooseTag key value => exact wellFormed_chooseTag_iff h key value
  | groupByTag tagKey => exact iff_of_true ⟨_, rfl, wellFormed_groupByTag h tagKey⟩ trivial

/-! ### Runs -/

theorem run_cons (query : QueryConfig) (action : Action) (actions : List Action) :
    run query (action :: actions) = (step query action).bind fun next => run next actions := rfl

/-- After every action the query is there, and is well-formed. -/
def KeptThrough (query : QueryConfig) (actions : List Action) : Prop :=
  ∀ before, before <+: actions → ∃ next, run query before = some next ∧ WellFormed next

theorem keptThrough_cons (action : Action) (actions : List Action) : KeptThrough query (action :: actions) ↔
    WellFormed query ∧ ∃ next, step query action = some next ∧ KeptThrough next actions := by
  constructor
  · intro h
    obtain ⟨_, hquery, hwell⟩ := h [] (List.nil_prefix)
    obtain rfl := Option.some_inj.mp hquery
    obtain ⟨next, hnext, -⟩ := h [action] (List.prefix_append [action] actions)
    rw [run_cons, Option.bind_eq_some_iff] at hnext
    obtain ⟨first, hfirst, -⟩ := hnext
    refine ⟨hwell, first, hfirst, fun before hbefore => ?_⟩
    obtain ⟨last, hlast, hwell'⟩ := h (action :: before) (List.prefix_cons_inj action |>.mpr hbefore)
    rw [run_cons, hfirst] at hlast
    exact ⟨last, hlast, hwell'⟩
  · rintro ⟨hwell, first, hfirst, h⟩ before hbefore
    cases before with
    | nil => exact ⟨query, rfl, hwell⟩
    | cons action' rest =>
      obtain ⟨rfl, hrest⟩ := List.cons_prefix_cons.mp hbefore
      rw [run_cons, hfirst]
      exact h rest hrest

theorem keptThrough_iff (actions : List Action) : ∀ {query : QueryConfig}, WellFormed query →
    (KeptThrough query actions ↔ MeetsAll query actions) := by
  induction actions with
  | nil =>
    intro query h
    refine iff_of_true (fun before hbefore => ?_) trivial
    rw [List.prefix_nil.mp hbefore]
    exact ⟨query, rfl, h⟩
  | cons action actions ih =>
    intro query h
    rw [keptThrough_cons, MeetsAll, and_iff_right h, ← wellFormed_step_iff h]
    constructor
    · rintro ⟨next, hnext, hkept⟩
      have hwell : WellFormed next := by
        obtain ⟨_, hrun, hwell⟩ := hkept [] List.nil_prefix
        exact Option.some_inj.mp hrun ▸ hwell
      refine ⟨⟨next, hnext, hwell⟩, fun next' hnext' => ?_⟩
      obtain rfl := Option.some_inj.mp (hnext.symm.trans hnext')
      exact (ih hwell).mp hkept
    · rintro ⟨⟨next, hnext, hwell⟩, hall⟩
      exact ⟨next, hnext, (ih hwell).mpr (hall next hnext)⟩

/-- The queries of a run stay well-formed exactly for these actions, and functions are applied to a field
of a query of functions as they should exactly for these functions. -/
theorem transitions_iff (actions : List Action) (query : QueryConfig) (field : String) (funcs : List FuncArg) (groupBy : GroupBy)
    (hall : AllFunctions query.fields) :
    (KeptThrough defaultQueryConfig actions ↔ MeetsAll defaultQueryConfig actions) ∧
      ((∃ next, applyFuncsToField query (plain field) funcs groupBy = some next ∧ AppliedExactly field funcs query.fields next.fields) ↔
        Exact query.fields field funcs) := by
  refine ⟨keptThrough_iff actions wellFormed_of_default, ?_⟩
  rw [applyFuncsToField_functions hall, ← appliedExactly_iff]
  constructor
  · rintro ⟨next, hsome, hnext⟩
    obtain rfl := Option.some_inj.mp hsome
    exact hnext
  · exact fun hnext => ⟨_, rfl, hnext⟩

theorem transitions_iff_mean : (KeptThrough defaultQueryConfig [] ↔ MeetsAll defaultQueryConfig []) ∧
    ((∃ next, applyFuncsToField ⟨[.mk "max" .func "max_usage" [plain "usage"]], Props.empty, ⟨"", []⟩⟩ (plain "usage")
        [⟨"max", ""⟩, ⟨"mean", ""⟩] ⟨"10s", []⟩ = some next ∧
      AppliedExactly "usage" [⟨"max", ""⟩, ⟨"mean", ""⟩] [.mk "max" .func "max_usage" [plain "usage"]] next.fields) ↔
      Exact [.mk "max" .func "max_usage" [plain "usage"]] "usage" [⟨"max", ""⟩, ⟨"mean", ""⟩]) :=
  transitions_iff [] _ "usage" _ ⟨"10s", []⟩ fun f hf => by
    rw [List.mem_singleton.mp hf]
    exact ⟨rfl, List.cons_ne_nil _ _⟩

/-- `percentile(usage, 90)` of a query that is there loses the 90 when `mean` is chosen beside it. -/
theorem further_argument_lost : ¬ ∃ next, applyFuncsToField
      ⟨[.mk "percentile" .func "p90" [plain "usage", .mk "90" .number "" []]], Props.empty, ⟨"10s", []⟩⟩ (plain "usage")
      [⟨"percentile", ""⟩, ⟨"mean", ""⟩] ⟨"10s", []⟩ = some next ∧
    AppliedExactly "usage" [⟨"percentile", ""⟩, ⟨"mean", ""⟩]
      [.mk "percentile" .func "p90" [plain "usage", .mk "90" .number "" []]] next.fields := by
  rintro ⟨next, hsome, -, hkept, -⟩
  obtain rfl := Option.some_inj.mp hsome
  have hmem := hkept _ (List.mem_singleton_self _) rfl List.mem_cons_self
  rcases List.mem_cons.mp hmem with heq | hmem
  · injection heq with _ _ halias _
    exact absurd halias (by decide)
  · injection List.mem_singleton.mp hmem with hvalue _ _ _
    exact absurd hvalue (by decide)

/-! ### The actions of the query builder -/

def INFLUXQL_FUNCTIONS : List String := ["mean", "median", "count", "min", "max", "sum", "first", "last", "spread", "stddev"]

/-- Different functions of the list, without aliases; no tag that is a property of every object. -/
def Offered : Action → Prop
  | .applyFuncsToField _ funcs _ => (funcs.map FuncArg.value).Nodup ∧ ∀ func ∈ funcs, func.aliasName = "" ∧ func.value ∈ INFLUXQL_FUNCTIONS
  | .chooseTag key _ => key ∉ Props.inherited
  | _ => True

/-- A function of the list on one field, under the alias that is made. -/
def Built (f : Field) : Prop := ∃ v ∈ INFLUXQL_FUNCTIONS, ∃ x, f = .mk v .func (v ++ "_" ++ x) [plain x]

def AllBuilt (fields : List Field) : Prop := ∀ f ∈ fields, f.type = .func → Built f

theorem not_mem_function {v : String} (hv : v ∈ INFLUXQL_FUNCTIONS) : '_' ∉ v.toList := by
  revert v
  decide

/-- No function of the list has an underscore, so that aliases tell function and field. -/
theorem alias_injective {v v' x x' : String} (hv : v ∈ INFLUXQL_FUNCTIONS) (hv' : v' ∈ INFLUXQL_FUNCTIONS)
    (h : v ++ "_" ++ x = v' ++ "_" ++ x') : v = v' ∧ x = x' := by
  have hchars : v.toList ++ '_' :: x.toList = v'.toList ++ '_' :: x'.toList := by
    have hunderscore : "_".toList = ['_'] := by decide
    simpa only [String.toList_append, List.append_assoc, hunderscore, List.singleton_append] using congrArg String.toList h
  have htake : ∀ {w : String} (y : List Char), w ∈ INFLUXQL_FUNCTIONS → (w.toList ++ '_' :: y).takeWhile (· ≠ '_') = w.toList := by
    intro w y hw
    have hnone : ∀ c ∈ w.toList, decide (c ≠ '_') = true := fun c hc => decide_eq_true fun heq => not_mem_function hw (heq ▸ hc)
    rw [List.takeWhile_append_of_pos hnone, List.takeWhile_cons, if_neg (by decide), List.append_nil]
  have hfirst : v.toList = v'.toList := by rw [← htake x.toList hv, hchars, htake x'.toList hv']
  refine ⟨String.toList_injective hfirst, String.toList_injective ?_⟩
  rw [hfirst, List.append_cancel_left_eq, List.cons.injEq] at hchars
  exact hchars.2

theorem named_built {x y v : String} : Named x (.mk v .func (v ++ "_" ++ y) [plain y]) ↔ y = x := by
  constructor
  · rintro ⟨a, ha, rfl⟩
    rw [List.mem_singleton.mp ha]
    rfl
  · rintro rfl
    exact ⟨plain y, List.mem_singleton_self _, rfl⟩

theorem applied_of_alias {func : FuncArg} (halias : func.aliasName = "") (f : Field) :
    applied f func = .mk func.value .func (func.value ++ "_" ++ f.value) [plain f.value] := by
  rw [applied, if_pos halias]

theorem meets_of_offered (h : WellFormed query) (hbuilt : AllBuilt query.fields) {action : Action} (hoffered : Offered action) :
    Meets query action := by
  cases action with
  | toggleField value =>
    intro hnot f hf htype heq
    obtain ⟨v, hv, x, rfl⟩ := hbuilt f hf htype
    have hmean : "mean" ∈ INFLUXQL_FUNCTIONS := by decide
    obtain ⟨-, rfl⟩ := alias_injective hv hmean heq
    exact hnot (hasField_iff.mpr (mem_fieldNamesDeep.mpr ⟨_, hf, .inr (List.mem_singleton_self _)⟩))
  | addInitialField value groupBy => trivial
  | applyFuncsToField x funcs groupBy =>
    obtain ⟨hnames, hfuncs⟩ := hoffered
    rw [Meets, Applies]
    split_ifs with htop
    · have hvalues := ((wellFormed_plain_iff (everyTopField_iff.mp htop)).mp h).1
      refine ⟨fun _ => hnames, ?_⟩
      have hpairs : (query.fields.flatMap fun f => funcs.map fun func => (func.value, f.value)).Nodup :=
        (nodup_pairs_applied hvalues).mpr fun _ => hnames
      have hmap : (query.fields.flatMap fun f => funcs.map fun func => (applied f func).aliasName) =
          (query.fields.flatMap fun f => funcs.map fun func => (func.value, f.value)).map fun p => p.1 ++ "_" ++ p.2 := by
        rw [List.map_flatMap]
        refine List.flatMap_congr fun f _ => ?_
        rw [List.map_map]
        refine List.map_congr_left fun func hfunc => ?_
        rw [applied_of_alias (hfuncs func hfunc).1]
        rfl
      rw [hmap]
      refine hpairs.map_on fun p hp q hq heq => ?_
      have hof : ∀ p ∈ query.fields.flatMap fun f => funcs.map fun func => (func.value, f.value), p.1 ∈ INFLUXQL_FUNCTIONS := fun p hp => by
        obtain ⟨f, -, hp⟩ := List.mem_flatMap.mp hp
        obtain ⟨func, hfunc, rfl⟩ := List.mem_map.mp hp
        exact (hfuncs func hfunc).2
      obtain ⟨hv, hx⟩ := alias_injective (hof p hp) (hof q hq) heq
      exact Prod.ext hv hx
    · have hall := h.kinds.resolve_left fun hplain => htop (everyTopField_iff.mpr hplain)
      refine fun _ => ⟨hnames, fun g hg hnot func hfunc => ?_⟩
      obtain ⟨v, hv, y, rfl⟩ := hbuilt g hg (hall g hg).1
      refine ⟨fun heq => hnot (named_built.mpr (alias_injective hv (hfuncs func hfunc).2 heq).2), fun ⟨_, hx⟩ => hnot (named_built.mpr ?_)⟩
      exact (List.mem_singleton.mp (hasField_iff.mp hx)).symm
  | removeFuncs fields => trivial
  | chooseTag key value => exact fun hinherited => absurd hinherited hoffered
  | groupByTag tagKey => trivial

theorem AllBuilt.of_subset {fields fields' : List Field} (h : AllBuilt fields) (hsub : fields' ⊆ fields) : AllBuilt fields' :=
  fun f hf => h f (hsub hf)

theorem AllBuilt.append {fields fields' : List Field} (h : AllBuilt fields) (h' : AllBuilt fields') : AllBuilt (fields ++ fields') := by
  intro f hf
  rcases List.mem_append.mp hf with hf | hf
  · exact h f hf
  · exact h' f hf

theorem allBuilt_initial (value : String) : AllBuilt [buildInitialField value] := by
  intro f hf _
  rw [List.mem_singleton.mp hf]
  exact ⟨"mean", by decide, value, rfl⟩

theorem allBuilt_plain (hplain : ∀ f ∈ fields, f.type = .field) : AllBuilt fields :=
  fun f hf htype => absurd ((hplain f hf).symm.trans htype) TimeShifts.FieldType.noConfusion

theorem allBuilt_step (h : WellFormed query) (hbuilt : AllBuilt query.fields) {action : Action} (hoffered : Offered action)
    (hnext : step query action = some next) : AllBuilt next.fields := by
  cases action with
  | toggleField value =>
    rw [step, toggleField] at hnext
    split_ifs at hnext
    · obtain ⟨newFields, hremove, hsublist⟩ := removeField_sublist h.kinds value
      rw [hremove, Option.map_some] at hnext
      split_ifs at hnext <;> obtain rfl := Option.some_inj.mp hnext
      · exact hbuilt.of_subset (List.nil_subset _)
      · exact hbuilt.of_subset hsublist.subset
    · obtain rfl := Option.some_inj.mp hnext
      refine hbuilt.append (allBuilt_plain fun f hf => ?_)
      rw [List.mem_singleton.mp hf]
      rfl
    · obtain rfl := Option.some_inj.mp hnext
      exact hbuilt.append (allBuilt_initial value)
  | addInitialField value groupBy =>
    obtain rfl := Option.some_inj.mp hnext
    exact allBuilt_initial value
  | applyFuncsToField x funcs groupBy =>
    rcases h.kinds with hplain | hall
    · rw [step, applyFuncsToField_plain hplain] at hnext
      obtain rfl := Option.some_inj.mp hnext
      intro g hg _
      obtain ⟨f, -, hg⟩ := List.mem_flatMap.mp hg
      obtain ⟨func, hfunc, rfl⟩ := List.mem_map.mp hg
      exact ⟨func.value, (hoffered.2 func hfunc).2, f.value, applied_of_alias (hoffered.2 func hfunc).1 f⟩
    · rw [step, applyFuncsToField_functions hall] at hnext
      obtain rfl := Option.some_inj.mp hnext
      by_cases hnamed : ∃ f ∈ query.fields, Named x f
      · have hnew : AllBuilt (funcs.map (replaced (plain x))) := fun g hg _ => by
          obtain ⟨func, hfunc, rfl⟩ := List.mem_map.mp hg
          exact ⟨func.value, (hoffered.2 func hfunc).2, x, rfl⟩
        exact ((hbuilt.of_subset (List.filter_subset_self _)).append hnew).of_subset (replaceFirst_perm hnamed).subset
      · rw [replaceFirst_of_none hnamed]
        exact hbuilt
  | removeFuncs fields =>
    obtain rfl := Option.some_inj.mp hnext
    exact allBuilt_plain fun f hf => type_of_mem_getFieldsDeep hf
  | chooseTag key value =>
    rw [step, chooseTag] at hnext
    split at hnext <;> split_ifs at hnext <;> obtain rfl := Option.some_inj.mp hnext <;> exact hbuilt
  | groupByTag tagKey =>
    obtain rfl := Option.some_inj.mp hnext
    exact hbuilt

/-- With the actions that the query builder offers, queries stay well-formed. -/
theorem offered_keptThrough (actions : List Action) (hoffered : ∀ action ∈ actions, Offered action) :
    KeptThrough defaultQueryConfig actions := by
  have hmeets : ∀ {query : QueryConfig}, WellFormed query → AllBuilt query.fields → MeetsAll query actions := by
    induction actions with
    | nil => exact fun _ _ => trivial
    | cons action actions ih =>
      intro query h hbuilt
      have haction := hoffered action List.mem_cons_self
      have hmeet := meets_of_offered h hbuilt haction
      refine ⟨hmeet, fun next hnext => ?_⟩
      obtain ⟨next', hnext', hwell⟩ := (wellFormed_step_iff h action).mpr hmeet
      obtain rfl := Option.some_inj.mp (hnext.symm.trans hnext')
      exact ih (fun a ha => hoffered a (List.mem_cons_of_mem _ ha)) hwell (allBuilt_step h hbuilt haction hnext)
  exact (keptThrough_iff actions wellFormed_of_default).mpr (hmeets wellFormed_of_default nofun)

end QueryTransitions
end Chronograf
