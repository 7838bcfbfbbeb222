/-
# How a statement is encoded

The encoding of a statement ends with JSON, with an error or by stopping the
process; its parts say which. Its JSON has the identifiers as they are if and
only if those that are pasted are plain. The JSON of a statement is that of its
parts.

Key definitions: `SelectStatement.Encodes`, `SelectStatement.Stops`,
`SelectStatement.Plain`, `SelectStatement.json`.
Key theorems: `marshalSelectStatement_outcome`,
`marshalSelectStatement_eq_json_iff`, `statementJSON_inj`.
-/
import Chronograf.Influx.Expressions

namespace Chronograf

open Queries (optional nonempty)

namespace Influxql

/-- Some element stops the process, and those before it are encoded. -/
def StopsIn {α : Type} (encodes stops : α → Prop) : List α → Prop
  | [] => False
  | a :: as => stops a ∨ encodes a ∧ StopsIn encodes stops as

/-! ### Dimensions -/

/-- A duration or the call `now()`. -/
def IsOffset : List Expr → Prop
  | [] => True
  | .duration _ :: _ => True
  | .call name args :: _ => name = "now" ∧ args = []
  | _ => False

/-- The call `time` with an interval, and an offset if there is a second argument. -/
def IsTime (name : String) : List Expr → Prop
  | .duration _ :: rest => name = "time" ∧ rest.length < 2 ∧ IsOffset rest
  | _ => False

def DimensionEncodes : Expr → Prop
  | .call name args => IsTime name args
  | .varRef _ _ => True
  | .wildcard _ => True
  | .regex _ => True
  | e => e.Encodes

def DimensionStops : Expr → Prop
  | .call _ _ => False
  | .varRef _ _ => False
  | .wildcard _ => False
  | .regex _ => False
  | e => e.Stops

def DimensionPlain : Expr → Prop
  | .call name args => IsTime name args
  | .varRef _ _ => True
  | .wildcard _ => True
  | .regex _ => True
  | e => e.Plain

def offsetText : List Expr → String
  | [] => ""
  | .duration o :: _ => formatDuration o
  | _ :: _ => "now()"

def timeJson : List Expr → Json
  | .duration lit :: rest => .obj (("interval", .str (formatDuration lit)) :: optional "offset" (nonempty (offsetText rest)))
  | _ => .null

/-- A tag as the JSON has it: a text, or an expression. -/
def tagShown : Expr → String ⊕ Expr
  | .varRef v _ => .inl v
  | .wildcard type => .inl (wildcardText type)
  | .regex r => .inl (regexText r)
  | e => .inr e

def tagJson : String ⊕ Expr → Json
  | .inl s => .str s
  | .inr e => e.json

def dimensionJson : Expr → Json
  | .call _ args => timeJson args
  | e => tagJson (tagShown e)

/-- The time that is encoded: the last one. -/
def timeOf (dimensions : List Expr) : Option Expr := (dimensions.filter Queries.isCall).getLast?

def tagsOf (dimensions : List Expr) : List (String ⊕ Expr) :=
  (dimensions.filter fun e => !Queries.isCall e).map tagShown

/-- The fill that is encoded. -/
def fillShown (fill : Fill) : Option String := if fill = .null then none else some (Queries.fillText fill)

/-! ### Statements -/

def groupByJson (dimensions : List Expr) (fill : Fill) : Json :=
  Queries.groupByJSON ((timeOf dimensions).map dimensionJson) ((tagsOf dimensions).map tagJson)
    ((fillShown fill).map .str)

/-- The dimensions and the fill, if there are dimensions. -/
def groupingJson (dimensions : List Expr) (fill : Fill) : Option Json :=
  if dimensions.isEmpty then none else some (groupByJson dimensions fill)

def fieldJson (f : Field) : Json := .obj (optional "alias" (nonempty f.aliasName) ++ [("column", f.expr.json)])

namespace SelectStatement

/-- The parts of the statement can be encoded. -/
structure Encodes (s : SelectStatement) : Prop where
  condition : ∀ e ∈ s.condition, e.Encodes
  fields : ∀ f ∈ s.fields, f.expr.Encodes
  dimensions : ∀ e ∈ s.dimensions, DimensionEncodes e

/-- The encoding stops the process. It takes the parts in this order, and ends
with the first that cannot be encoded. -/
def Stops (s : SelectStatement) : Prop :=
  (∃ e ∈ s.condition, e.Stops) ∨
    (∀ e ∈ s.condition, e.Encodes) ∧ (StopsIn (fun f => f.expr.Encodes) (fun f => f.expr.Stops) s.fields ∨
      (∀ f ∈ s.fields, f.expr.Encodes) ∧ StopsIn DimensionEncodes DimensionStops s.dimensions)

/-- Every identifier that is pasted stands for itself. -/
structure Plain (s : SelectStatement) : Prop where
  condition : ∀ e ∈ s.condition, e.Plain
  fields : ∀ f ∈ s.fields, f.expr.Plain
  dimensions : ∀ e ∈ s.dimensions, DimensionPlain e

/-- The JSON of the statement with each identifier as it is. -/
def json (s : SelectStatement) : Json :=
  Queries.statementJSON (s.condition.map Expr.json) (s.fields.map fieldJson) (groupingJson s.dimensions s.fill)
    (Queries.marshalLimits s) (s.sortFields.map Queries.marshalSortField) (s.sources.map Queries.marshalSource)

end SelectStatement
end Influxql

namespace Queries

open Influxql

/-! ### How a statement is encoded -/

theorem marshalOffset_outcome (es : List Expr) : Outcome (marshalOffset es) (IsOffset es) False := by
  cases es with
  | nil => exact .ret ""
  | cons e es =>
    cases e with
    | duration o => exact .ret (formatDuration o)
    | call name args =>
      rw [marshalOffset, IsOffset]
      split_ifs with hname hargs
      · exact Outcome.error.congr (by simp [hname]) Iff.rfl
      · exact Outcome.error.congr (by simp_all) Iff.rfl
      · exact (Outcome.ret "now()").congr (by simp_all) Iff.rfl
    | _ => exact .error

theorem marshalOffset_ok {es : List Expr} (h : IsOffset es) : marshalOffset es = .ok (offsetText es) := by
  cases es with
  | nil => rfl
  | cons e es =>
    cases e with
    | duration o => rfl
    | call name args =>
      obtain ⟨rfl, rfl⟩ := h
      rfl
    | _ => exact h.elim

theorem marshalDimension_call {name : String} {args : List Expr} (h : IsTime name args) :
    marshalDimension (.call name args) = .ok (timeJson args) := by
  cases args with
  | nil => exact h.elim
  | cons a rest =>
    cases a with
    | duration lit =>
      obtain ⟨rfl, hlen, hoffset⟩ := h
      have hnot : ¬ ((Expr.duration lit :: rest).length < 1 ∨ 2 < (Expr.duration lit :: rest).length) := by
        rw [List.length_cons]
        omega
      rw [marshalDimension, if_neg (by simp), if_neg hnot, timeJson, marshalOffset_ok hoffset]
      rfl
    | _ => exact h.elim

theorem marshalDimension_outcome (e : Expr) : Outcome (marshalDimension e) (DimensionEncodes e) (DimensionStops e) := by
  cases e with
  | call name args =>
    by_cases h : IsTime name args
    · rw [marshalDimension_call h]
      exact (Outcome.ret _).congr (iff_of_true trivial h) Iff.rfl
    refine Outcome.congr ?_ (iff_of_false id h) Iff.rfl
    cases args with
    | nil =>
      rw [marshalDimension]
      · split_ifs with hname hlen
        · exact .error
        · exact .error
        · exact .error
      · exact fun lit rest h => (nomatch h)
    | cons a rest =>
      cases a with
      | duration lit =>
        rw [marshalDimension]
        split_ifs with hname hlen
        · exact .error
        · exact .error
        · have hoffset : ¬ IsOffset rest := by
            intro hoffset
            refine h ⟨not_not.mp hname, ?_, hoffset⟩
            rw [List.length_cons] at hlen
            omega
          exact ((marshalOffset_outcome rest).map fun offset => ⟨_, rfl⟩).congr (iff_of_false hoffset id) Iff.rfl
      | _ =>
        rw [marshalDimension]
        · split_ifs with hname hlen
          · exact .error
          · exact .error
          · exact .error
        · exact fun lit rest h => (nomatch h)
  | varRef v type => exact .ret _
  | wildcard type => exact .ret _
  | regex r => exact .ret _
  | _ => exact marshalExpr_outcome _

theorem marshalDimension_eq_json_iff (e : Expr) : marshalDimension e = .ok (dimensionJson e) ↔ DimensionPlain e := by
  cases e with
  | call name args =>
    constructor
    · exact fun h => (marshalDimension_outcome _).ok.mpr ⟨_, h⟩
    · exact marshalDimension_call
  | varRef v type => exact iff_of_true rfl trivial
  | wildcard type => exact iff_of_true rfl trivial
  | regex r => exact iff_of_true rfl trivial
  | _ => exact marshalExpr_eq_json_iff _

theorem marshalField_outcome (f : Field) : Outcome (marshalField f) f.expr.Encodes f.expr.Stops :=
  (marshalExpr_outcome f.expr).map fun _ => ⟨_, rfl⟩

theorem marshalFields_outcome (fs : List Field) :
    Outcome (marshalFields fs) (∀ f ∈ fs, f.expr.Encodes) (StopsIn (fun f => f.expr.Encodes) (fun f => f.expr.Stops) fs) := by
  induction fs with
  | nil => exact (Outcome.ret _).congr (by simp) Iff.rfl
  | cons f fs ih =>
    have hall := (marshalField_outcome f).bind fun j => ih.map fun js => ⟨j :: js, rfl⟩
    exact hall.congr (by rw [List.forall_mem_cons]) Iff.rfl

theorem marshalDimensions_outcome (es : List Expr) : ∀ time tags,
    Outcome (marshalDimensions es time tags) (∀ e ∈ es, DimensionEncodes e) (StopsIn DimensionEncodes DimensionStops es) := by
  induction es with
  | nil => exact fun time tags => (Outcome.ret _).congr (by simp) Iff.rfl
  | cons e es ih =>
    intro time tags
    refine Outcome.congr ?_ List.forall_mem_cons.symm Iff.rfl
    refine (marshalDimension_outcome e).bind fun j => ?_
    split_ifs
    · exact ih _ _
    · exact ih _ _

theorem marshalGroupBy_outcome (es : List Expr) (fill : Fill) :
    Outcome (marshalGroupBy es fill) (∀ e ∈ es, DimensionEncodes e) (StopsIn DimensionEncodes DimensionStops es) :=
  (marshalDimensions_outcome es none []).map fun _ => ⟨_, rfl⟩

theorem marshalCondition_outcome (condition : Option Expr) :
    Outcome (marshalCondition condition) (∀ e ∈ condition, e.Encodes) (∃ e ∈ condition, e.Stops) := by
  cases condition with
  | none => exact (Outcome.ret none).congr (by simp) (by simp)
  | some e => exact ((marshalExpr_outcome e).map fun j => ⟨some j, rfl⟩).congr (by simp) (by simp)

theorem marshalGrouping_outcome (s : SelectStatement) : Outcome (marshalGrouping s)
    (∀ e ∈ s.dimensions, DimensionEncodes e) (StopsIn DimensionEncodes DimensionStops s.dimensions) := by
  unfold marshalGrouping
  split_ifs with hempty
  · rw [List.isEmpty_iff.mp hempty]
    exact (Outcome.ret none).congr (by simp) Iff.rfl
  · exact (marshalGroupBy_outcome s.dimensions s.fill).map fun j => ⟨some j, rfl⟩

/-- A statement is encoded, or stops the process, or is refused, as its parts are. -/
theorem marshalSelectStatement_outcome (s : SelectStatement) : Outcome (marshalSelectStatement s) s.Encodes s.Stops := by
  have hall : Outcome (marshalSelectStatement s) _ _ :=
    (marshalCondition_outcome s.condition).bind fun condition => (marshalFields_outcome s.fields).bind fun fields =>
      (marshalGrouping_outcome s).map fun groupBy => ⟨_, rfl⟩
  exact hall.congr ⟨fun ⟨hc, hf, hd⟩ => ⟨hc, hf, hd⟩, fun ⟨hc, hf, hd⟩ => ⟨hc, hf, hd⟩⟩ Iff.rfl

/-! ### Statements that are shown -/

@[simp] theorem lookup_optional (key k : String) (v : Option Json) :
    (optional key v).lookup k = if k = key then v else none := by
  cases v with
  | none => simp [optional]
  | some j =>
    by_cases h : k = key
    · simp [optional, h]
    · simp [optional, List.lookup_cons, beq_false_of_ne h, h]

/-- The parts of a statement are the members of its object. -/
theorem statementJSON_inj {condition condition' groupBy groupBy' limits limits' : Option Json}
    {fields fields' orderbys orderbys' sources sources' : List Json}
    (h : statementJSON condition fields groupBy limits orderbys sources =
      statementJSON condition' fields' groupBy' limits' orderbys' sources') :
    condition = condition' ∧ fields = fields' ∧ groupBy = groupBy' ∧ limits = limits' ∧ orderbys = orderbys' ∧
      sources = sources' := by
  have hmembers := Json.obj.inj h
  have hmember := fun key : String => congrArg (List.lookup key) hmembers
  have hcondition := hmember "condition"
  have hfields := hmember "fields"
  have hgroupBy := hmember "groupBy"
  have hlimits := hmember "limits"
  have horderbys := hmember "orderbys"
  have hsources := hmember "sources"
  simp [List.lookup_append, List.lookup_cons] at hcondition hfields hgroupBy hlimits horderbys hsources
  exact ⟨hcondition, hfields, hgroupBy, hlimits, optional_list_inj (congrArg (optional "") horderbys), hsources⟩

theorem groupByJSON_inj {time time' fill fill' : Option Json} {tags tags' : List Json}
    (h : groupByJSON time tags fill = groupByJSON time' tags' fill') : time = time' ∧ tags = tags' ∧ fill = fill' := by
  have hmembers := Json.obj.inj h
  have hmember := fun key : String => congrArg (List.lookup key) hmembers
  have htime := hmember "time"
  have htags := hmember "tags"
  have hfill := hmember "fill"
  simp [List.lookup_append] at htime htags hfill
  exact ⟨htime, optional_list_inj (congrArg (optional "") htags), hfill⟩

theorem marshalField_eq_json_iff (f : Field) : marshalField f = .ok (fieldJson f) ↔ f.expr.Plain := by
  rw [marshalField, bind_eq_ok_iff, ← marshalExpr_eq_json_iff f.expr]
  constructor
  · rintro ⟨column, hcolumn, h⟩
    have hmembers := List.append_cancel_left (Json.obj.inj (Except.ok.inj h))
    have hjson : column = f.expr.json := by simpa using hmembers
    exact hjson ▸ hcolumn
  · exact fun h => ⟨_, h, rfl⟩

theorem marshalFields_eq_json_iff (fs : List Field) :
    marshalFields fs = .ok (fs.map fieldJson) ↔ ∀ f ∈ fs, f.expr.Plain := by
  induction fs with
  | nil => exact iff_of_true rfl (by simp)
  | cons f fs ih =>
    rw [List.forall_mem_cons, ← marshalField_eq_json_iff f, ← ih, marshalFields]
    simp only [bind_eq_ok_iff]
    constructor
    · rintro ⟨j, hj, js, hjs, h⟩
      obtain ⟨rfl, rfl⟩ := List.cons.inj (Except.ok.inj h)
      exact ⟨hj, hjs⟩
    · rintro ⟨hj, hjs⟩
      exact ⟨_, hj, _, hjs, rfl⟩

theorem timeOf_cons (e : Expr) (es : List Expr) :
    timeOf (e :: es) = (timeOf es).or (if isCall e then some e else none) := by
  unfold timeOf
  by_cases h : isCall e
  · rw [List.filter_cons_of_pos h, List.getLast?_cons, if_pos h]
    cases (es.filter isCall).getLast? <;> rfl
  · rw [List.filter_cons_of_neg h, if_neg h, Option.or_none]

theorem tagsOf_cons (e : Expr) (es : List Expr) :
    tagsOf (e :: es) = if isCall e then tagsOf es else tagShown e :: tagsOf es := by
  unfold tagsOf
  by_cases h : isCall e <;> simp [h]

/-- The tags that have been encoded stay. -/
theorem marshalDimensions_tags (es : List Expr) : ∀ {time time' : Option Json} {tags tags' : List Json},
    marshalDimensions es time tags = .ok (time', tags') → tags <+: tags' := by
  induction es with
  | nil =>
    intro time time' tags tags' h
    obtain ⟨-, rfl⟩ := Prod.mk.inj (Except.ok.inj h)
    exact List.prefix_rfl
  | cons e es ih =>
    intro time time' tags tags' h
    obtain ⟨j, -, h⟩ := bind_eq_ok_iff.mp h
    split_ifs at h
    · exact ih h
    · exact (List.prefix_append tags [j]).trans (ih h)

theorem dimensionJson_of_not_isCall {e : Expr} (h : ¬ isCall e) : dimensionJson e = tagJson (tagShown e) := by
  cases e with
  | call name args => exact absurd rfl h
  | _ => rfl

theorem eq_dimensionJson_of_isCall {e : Expr} {j : Json} (hcall : isCall e) (h : marshalDimension e = .ok j) :
    j = dimensionJson e := by
  cases e with
  | call name args =>
    have htime : IsTime name args := (marshalDimension_outcome (.call name args)).ok.mpr ⟨j, h⟩
    rw [marshalDimension_call htime] at h
    exact (Except.ok.inj h).symm
  | _ => cases hcall

theorem marshalDimensions_eq_json_iff (es : List Expr) : ∀ (time : Option Json) (tags : List Json),
    marshalDimensions es time tags = .ok (((timeOf es).map dimensionJson).or time, tags ++ (tagsOf es).map tagJson) ↔
      ∀ e ∈ es, DimensionPlain e := by
  induction es with
  | nil =>
    intro time tags
    exact iff_of_true (by rw [tagsOf, List.filter_nil, List.map_nil, List.map_nil, List.append_nil]; rfl) (by simp)
  | cons e es ih =>
    intro time tags
    rw [List.forall_mem_cons, ← marshalDimension_eq_json_iff e, marshalDimensions, bind_eq_ok_iff, timeOf_cons, tagsOf_cons]
    by_cases hcall : isCall e
    · have htime : (((timeOf es).or (some e)).map dimensionJson).or time =
          ((timeOf es).map dimensionJson).or (some (dimensionJson e)) := by
        cases timeOf es <;> rfl
      simp only [if_pos hcall, htime]
      constructor
      · rintro ⟨j, hj, h⟩
        obtain rfl := eq_dimensionJson_of_isCall hcall hj
        exact ⟨hj, (ih _ tags).mp h⟩
      · exact fun ⟨hj, hes⟩ => ⟨_, hj, (ih _ tags).mpr hes⟩
    · have hcons : tags ++ tagJson (tagShown e) :: (tagsOf es).map tagJson =
          tags ++ [dimensionJson e] ++ (tagsOf es).map tagJson := by
        rw [dimensionJson_of_not_isCall hcall, List.append_assoc, List.singleton_append]
      simp only [if_neg hcall, Option.or_none, List.map_cons, hcons]
      constructor
      · rintro ⟨j, hj, h⟩
        have hpre := marshalDimensions_tags es h
        rw [List.append_assoc, List.prefix_append_right_inj, List.singleton_append, List.cons_prefix_cons] at hpre
        obtain rfl := hpre.1
        exact ⟨hj, (ih time _).mp h⟩
      · exact fun ⟨hj, hes⟩ => ⟨_, hj, (ih time _).mpr hes⟩

theorem marshalFill_eq (fill : Fill) : marshalFill fill = (fillShown fill).map .str := by
  unfold marshalFill fillShown
  split_ifs <;> rfl

theorem marshalGroupBy_eq_json_iff (es : List Expr) (fill : Fill) :
    marshalGroupBy es fill = .ok (groupByJson es fill) ↔ ∀ e ∈ es, DimensionPlain e := by
  have hiff := marshalDimensions_eq_json_iff es none []
  rw [Option.or_none, List.nil_append] at hiff
  rw [← hiff, marshalGroupBy, groupByJson, ← marshalFill_eq, bind_eq_ok_iff]
  constructor
  · rintro ⟨⟨time, tags⟩, hparts, h⟩
    obtain ⟨rfl, rfl, -⟩ := groupByJSON_inj (Except.ok.inj h)
    exact hparts
  · exact fun h => ⟨_, h, rfl⟩

theorem marshalCondition_eq_json_iff (condition : Option Expr) :
    marshalCondition condition = .ok (condition.map Expr.json) ↔ ∀ e ∈ condition, e.Plain := by
  cases condition with
  | none => exact iff_of_true rfl (by simp)
  | some e =>
    rw [marshalCondition, bind_eq_ok_iff, Option.map_some]
    constructor
    · rintro ⟨j, hj, h⟩
      obtain rfl := Option.some.inj (Except.ok.inj h)
      simpa using (marshalExpr_eq_json_iff e).mp hj
    · exact fun h => ⟨_, (marshalExpr_eq_json_iff e).mpr (h e rfl), rfl⟩

theorem marshalGrouping_eq_json_iff (s : SelectStatement) :
    marshalGrouping s = .ok (groupingJson s.dimensions s.fill) ↔ ∀ e ∈ s.dimensions, DimensionPlain e := by
  unfold marshalGrouping groupingJson
  split_ifs with hempty
  · rw [List.isEmpty_iff.mp hempty]
    exact iff_of_true rfl (by simp)
  · rw [← marshalGroupBy_eq_json_iff s.dimensions s.fill, bind_eq_ok_iff]
    constructor
    · rintro ⟨j, hj, h⟩
      obtain rfl := Option.some.inj (Except.ok.inj h)
      exact hj
    · exact fun h => ⟨_, h, rfl⟩

/-- The encoder gives each identifier as it is if and only if those that are pasted are plain. -/
theorem marshalSelectStatement_eq_json_iff (s : SelectStatement) : marshalSelectStatement s = .ok s.json ↔ s.Plain := by
  rw [marshalSelectStatement, SelectStatement.json]
  simp only [bind_eq_ok_iff]
  constructor
  · rintro ⟨condition, hcondition, fields, hfields, groupBy, hgroupBy, h⟩
    obtain ⟨rfl, rfl, rfl, -⟩ := statementJSON_inj (Except.ok.inj h)
    exact ⟨(marshalCondition_eq_json_iff _).mp hcondition, (marshalFields_eq_json_iff _).mp hfields,
      (marshalGrouping_eq_json_iff s).mp hgroupBy⟩
  · rintro ⟨hcondition, hfields, hdimensions⟩
    exact ⟨_, (marshalCondition_eq_json_iff _).mpr hcondition, _, (marshalFields_eq_json_iff _).mpr hfields, _,
      (marshalGrouping_eq_json_iff s).mpr hdimensions, rfl⟩

end Queries
end Chronograf
