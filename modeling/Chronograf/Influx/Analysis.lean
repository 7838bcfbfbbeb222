/-
# What the JSON of a statement tells

Of two statements that differ, the analysis is right (`Analysed`) if encoding
neither of them stops the process and their JSON, where both have one, differs
and shows the identifiers and literals of each as they are. The statements say
when this is so. Beyond what keeps an expression from being shown, the
encoding leaves out the regular expression of a source, the place of the time
among the dimensions, the type of a tag, and a fill without dimensions
(`ShownAlike`).

Key definitions: `SelectStatement.Exact`, `SelectStatement.ShownAlike`,
`Analysed`.
Key theorem: `analysed_iff`.
-/
import Chronograf.Influx.Statements

namespace Chronograf

open Queries (optional nonempty)

namespace Influxql
namespace SelectStatement

/-- Every literal is read back from its text. -/
structure Denoted (s : SelectStatement) : Prop where
  condition : ∀ e ∈ s.condition, e.Denoted
  fields : ∀ f ∈ s.fields, f.expr.Denoted
  dimensions : ∀ e ∈ s.dimensions, e.Denoted
  sources : ∀ m ∈ s.sources, m.regex = none

/-- The identifiers and literals of the statement are shown as they are. -/
structure Exact (s : SelectStatement) : Prop where
  plain : s.Plain
  denoted : s.Denoted

/-- The encoding has nothing to tell the statements apart. -/
structure ShownAlike (s s' : SelectStatement) : Prop where
  fields : s.fields = s'.fields
  sources : s.sources = s'.sources
  condition : s.condition = s'.condition
  grouped : s.dimensions = [] ↔ s'.dimensions = []
  time : timeOf s.dimensions = timeOf s'.dimensions
  tags : tagsOf s.dimensions = tagsOf s'.dimensions
  fill : s.dimensions ≠ [] → fillShown s.fill = fillShown s'.fill
  order : s.sortFields = s'.sortFields
  limit : s.limit = s'.limit
  offset : s.offset = s'.offset
  slimit : s.slimit = s'.slimit
  soffset : s.soffset = s'.soffset

end SelectStatement
end Influxql

namespace Queries

open Influxql

/-- The JSON has each identifier of the statement as it is, and the texts of its
literals are those of the literals. -/
def Shows (j : Json) (s : SelectStatement) : Prop := j = s.json ∧ s.Denoted

/-- Encoding the two statements does not stop the process, and if they differ,
so does their JSON, which shows each. -/
def Analysed (s s' : SelectStatement) : Prop :=
  marshalSelectStatement s ≠ .error .fatal ∧ marshalSelectStatement s' ≠ .error .fatal ∧
    ∀ j j', marshalSelectStatement s = .ok j → marshalSelectStatement s' = .ok j' → s ≠ s' →
      j ≠ j' ∧ Shows j s ∧ Shows j' s'

/-! ### What the JSON of the parts tells -/

theorem eq_of_map_eq {α β : Type} {f : α → β} : ∀ {as bs : List α}, (∀ a ∈ as, ∀ b ∈ bs, f a = f b → a = b) →
    as.map f = bs.map f → as = bs
  | [], [], _, _ => rfl
  | [], _ :: _, _, h => nomatch h
  | _ :: _, [], _, h => nomatch h
  | a :: as, b :: bs, hinj, h => by
    obtain ⟨hab, hmap⟩ := List.cons.inj h
    have htail := eq_of_map_eq (fun x hx y hy => hinj x (.tail a hx) y (.tail b hy)) hmap
    rw [hinj a List.mem_cons_self b List.mem_cons_self hab, htail]

theorem json_ne_str (e : Expr) (s : String) : e.json ≠ .str s := by
  cases e <;> simp [Expr.json, literalJSON, Expr.varRefJson]

theorem fieldJson_inj {f f' : Field} (hd : f.expr.Denoted) (hd' : f'.expr.Denoted) (h : fieldJson f = fieldJson f') :
    f = f' := by
  have hmembers := Json.obj.inj h
  have hcolumn := congrArg (List.lookup "column") hmembers
  have halias := congrArg (List.lookup "alias") hmembers
  simp [List.lookup_append, List.lookup_cons] at hcolumn halias
  have hname : f.aliasName = f'.aliasName := optional_string_inj (congrArg (optional "") halias)
  cases f
  cases f'
  rw [Field.mk.injEq]
  exact ⟨json_inj hd hd' hcolumn, hname⟩

theorem marshalSource_inj {m m' : Measurement} (hm : m.regex = none) (hm' : m'.regex = none)
    (h : marshalSource m = marshalSource m') : m = m' := by
  have hmembers := Json.obj.inj h
  have hmember := fun key : String => congrArg (List.lookup key) hmembers
  have hdatabase := hmember "database"
  have hpolicy := hmember "retentionPolicy"
  have hname := hmember "name"
  simp [List.lookup_append, List.lookup_cons, hm, hm'] at hdatabase hpolicy hname
  cases m
  cases m'
  rw [Measurement.mk.injEq]
  exact ⟨hdatabase, hpolicy, optional_string_inj (congrArg (optional "") hname), hm.trans hm'.symm⟩

theorem marshalSortField_inj {f f' : SortField} (h : marshalSortField f = marshalSortField f') : f = f' := by
  have hmembers := Json.obj.inj h
  have hname := congrArg (List.lookup "name") hmembers
  have horder := congrArg (List.lookup "order") hmembers
  simp [List.lookup_append, List.lookup_cons] at hname horder
  cases f
  cases f'
  rw [SortField.mk.injEq]
  refine ⟨optional_string_inj (congrArg (optional "") hname), ?_⟩
  split_ifs at horder <;> simp_all

theorem nonzero_inj {n m : ℕ} (h : nonzero n = nonzero m) : n = m := by
  unfold nonzero at h
  split_ifs at h with hn hm hm
  · exact hn.trans hm.symm
  · exact natRepr_inj (Json.num.inj (Option.some.inj h))

theorem marshalLimits_inj {s s' : SelectStatement} (h : marshalLimits s = marshalLimits s') :
    s.limit = s'.limit ∧ s.offset = s'.offset ∧ s.slimit = s'.slimit ∧ s.soffset = s'.soffset := by
  unfold marshalLimits at h
  split_ifs at h with hs hs' hs'
  · have hmembers := Json.obj.inj (Option.some.inj h)
    have hmember := fun key : String => congrArg (List.lookup key) hmembers
    have hlimit := hmember "limit"
    have hoffset := hmember "offset"
    have hslimit := hmember "slimit"
    have hsoffset := hmember "soffset"
    simp [List.lookup_append] at hlimit hoffset hslimit hsoffset
    exact ⟨nonzero_inj hlimit, nonzero_inj hoffset, nonzero_inj hslimit, nonzero_inj hsoffset⟩
  · omega

theorem isOffset_cases {es : List Expr} (h : IsOffset es) (hlen : es.length < 2) :
    es = [] ∨ (∃ o, es = [.duration o]) ∨ es = [.call "now" []] := by
  match es, hlen with
  | [], _ => exact .inl rfl
  | [e], _ =>
    cases e with
    | duration o => exact .inr (.inl ⟨o, rfl⟩)
    | call name args =>
      obtain ⟨rfl, rfl⟩ := h
      exact .inr (.inr rfl)
    | _ => exact h.elim

theorem isTime_cases {name : String} {args : List Expr} (h : IsTime name args) :
    ∃ lit rest, name = "time" ∧ args = .duration lit :: rest ∧ rest.length < 2 ∧ IsOffset rest := by
  cases args with
  | nil => exact h.elim
  | cons e rest =>
    cases e with
    | duration lit => exact ⟨lit, rest, h.1, rfl, h.2.1, h.2.2⟩
    | _ => exact h.elim

theorem timeOf_eq_some {es : List Expr} {e : Expr} (h : timeOf es = some e) : e ∈ es ∧ ∃ name args, e = .call name args := by
  have hmem := List.mem_of_getLast? h
  refine ⟨List.mem_of_mem_filter hmem, ?_⟩
  have hcall := List.of_mem_filter hmem
  cases e with
  | call name args => exact ⟨name, args, rfl⟩
  | _ => cases hcall

theorem offsetText_inj {es es' : List Expr} (h : IsOffset es) (h' : IsOffset es') (hlen : es.length < 2)
    (hlen' : es'.length < 2) (hd : Expr.DenotedAll es) (hd' : Expr.DenotedAll es') (heq : offsetText es = offsetText es') :
    es = es' := by
  have hempty : ∀ c ∈ "".toList.head?, ¬ isNumeral c := no_numeral_first (by decide)
  have hnow : ∀ c ∈ "now()".toList.head?, ¬ isNumeral c := no_numeral_first (by decide)
  obtain rfl | ⟨o, rfl⟩ | rfl := isOffset_cases h hlen <;> obtain rfl | ⟨o', rfl⟩ | rfl := isOffset_cases h' hlen'
  · rfl
  · exact absurd heq.symm (formatDuration_ne hd'.1 hempty)
  · exact absurd heq (by decide)
  · exact absurd heq (formatDuration_ne hd.1 hempty)
  · rw [eq_of_formatDuration hd.1 hd'.1 heq]
  · exact absurd heq (formatDuration_ne hd.1 hnow)
  · exact absurd heq (by decide)
  · exact absurd heq.symm (formatDuration_ne hd'.1 hnow)
  · rfl

theorem timeJson_inj {name name' : String} {args args' : List Expr} (h : IsTime name args) (h' : IsTime name' args')
    (hd : Expr.DenotedAll args) (hd' : Expr.DenotedAll args') (heq : timeJson args = timeJson args') :
    name = name' ∧ args = args' := by
  obtain ⟨lit, rest, rfl, rfl, hlen, hoffset⟩ := isTime_cases h
  obtain ⟨lit', rest', rfl, rfl, hlen', hoffset'⟩ := isTime_cases h'
  obtain ⟨hinterval, hrest⟩ := List.cons.inj (Json.obj.inj heq)
  have hlit : formatDuration lit = formatDuration lit' := Json.str.inj (Prod.mk.inj hinterval).2
  have htext : offsetText rest = offsetText rest' := optional_string_inj hrest
  rw [eq_of_formatDuration hd.1 hd'.1 hlit, offsetText_inj hoffset hoffset' hlen hlen' hd.2 hd'.2 htext]
  exact ⟨rfl, rfl⟩

theorem timeOf_inj {es es' : List Expr} (hplain : ∀ e ∈ es, DimensionPlain e) (hplain' : ∀ e ∈ es', DimensionPlain e)
    (hd : ∀ e ∈ es, e.Denoted) (hd' : ∀ e ∈ es', e.Denoted)
    (h : (timeOf es).map dimensionJson = (timeOf es').map dimensionJson) : timeOf es = timeOf es' := by
  cases ht : timeOf es with
  | none => cases ht' : timeOf es' with
    | none => rfl
    | some e' => rw [ht, ht'] at h; cases h
  | some e => cases ht' : timeOf es' with
    | none => rw [ht, ht'] at h; cases h
    | some e' =>
      rw [ht, ht'] at h
      obtain ⟨hmem, name, args, rfl⟩ := timeOf_eq_some ht
      obtain ⟨hmem', name', args', rfl⟩ := timeOf_eq_some ht'
      obtain ⟨rfl, rfl⟩ := timeJson_inj (hplain _ hmem) (hplain' _ hmem') (hd _ hmem) (hd' _ hmem') (Option.some.inj h)
      rfl

/-- Tags whose literals are read back have different JSON. -/
theorem tagJson_inj {t t' : String ⊕ Expr} (hd : ∀ e, t = .inr e → e.Denoted) (hd' : ∀ e, t' = .inr e → e.Denoted)
    (h : tagJson t = tagJson t') : t = t' := by
  rcases t with s | e <;> rcases t' with s' | e'
  · rw [Json.str.inj h]
  · exact absurd h.symm (json_ne_str e' s)
  · exact absurd h (json_ne_str e s')
  · rw [json_inj (hd e rfl) (hd' e' rfl) h]

theorem denoted_of_mem_tagsOf {es : List Expr} (hd : ∀ e ∈ es, e.Denoted) :
    ∀ t ∈ tagsOf es, ∀ e, t = .inr e → e.Denoted := by
  intro t ht e hte
  obtain ⟨d, hmem, rfl⟩ := List.mem_map.mp ht
  have hde : d = e := by cases d <;> simp_all [tagShown]
  exact hde ▸ hd d (List.mem_of_mem_filter hmem)

theorem groupByJson_inj {es es' : List Expr} {fill fill' : Fill} (hplain : ∀ e ∈ es, DimensionPlain e)
    (hplain' : ∀ e ∈ es', DimensionPlain e) (hd : ∀ e ∈ es, e.Denoted) (hd' : ∀ e ∈ es', e.Denoted)
    (h : groupByJson es fill = groupByJson es' fill') :
    timeOf es = timeOf es' ∧ tagsOf es = tagsOf es' ∧ fillShown fill = fillShown fill' := by
  obtain ⟨htime, htags, hfill⟩ := groupByJSON_inj h
  refine ⟨timeOf_inj hplain hplain' hd hd' htime, eq_of_map_eq (fun t ht t' ht' => ?_) htags, ?_⟩
  · exact tagJson_inj (denoted_of_mem_tagsOf hd t ht) (denoted_of_mem_tagsOf hd' t' ht')
  · exact Option.map_injective (fun s s' => Json.str.inj) hfill

/-! ### Which statements are analysed -/

theorem json_eq_of_shownAlike {s s' : SelectStatement} (h : s.ShownAlike s') : s.json = s'.json := by
  have hlimits : marshalLimits s = marshalLimits s' := by
    unfold marshalLimits
    rw [h.limit, h.offset, h.slimit, h.soffset]
  have hgrouping : groupingJson s.dimensions s.fill = groupingJson s'.dimensions s'.fill := by
    unfold groupingJson groupByJson
    rw [h.time, h.tags]
    simp only [List.isEmpty_iff, ← h.grouped]
    split_ifs with hempty
    · rfl
    · rw [h.fill hempty]
  rw [SelectStatement.json, SelectStatement.json, h.condition, h.fields, h.sources, h.order, hlimits, hgrouping]

/-- Only what the encoding leaves out is missing from the JSON of statements that are shown as they are. -/
theorem shownAlike_of_json_eq {s s' : SelectStatement} (h : s.Exact) (h' : s'.Exact) (heq : s.json = s'.json) :
    s.ShownAlike s' := by
  obtain ⟨hcondition, hfields, hgrouping, hlimits, horder, hsources⟩ := statementJSON_inj heq
  obtain ⟨hlimit, hoffset, hslimit, hsoffset⟩ := marshalLimits_inj hlimits
  have hgrouped : s.dimensions = [] ↔ s'.dimensions = [] := by
    unfold groupingJson at hgrouping
    split_ifs at hgrouping with he he' he'
    · exact iff_of_true (List.isEmpty_iff.mp he) (List.isEmpty_iff.mp he')
    · exact iff_of_false (fun hs => he (List.isEmpty_iff.mpr hs)) (fun hs => he' (List.isEmpty_iff.mpr hs))
  have hparts : timeOf s.dimensions = timeOf s'.dimensions ∧ tagsOf s.dimensions = tagsOf s'.dimensions ∧
      (s.dimensions ≠ [] → fillShown s.fill = fillShown s'.fill) := by
    by_cases hempty : s.dimensions = []
    · rw [hempty, hgrouped.mp hempty]
      exact ⟨rfl, rfl, fun hne => absurd rfl hne⟩
    · unfold groupingJson at hgrouping
      rw [if_neg (by rwa [List.isEmpty_iff]), if_neg (by rwa [List.isEmpty_iff, ← hgrouped])] at hgrouping
      obtain ⟨htime, htags, hfill⟩ := groupByJson_inj h.plain.dimensions h'.plain.dimensions h.denoted.dimensions
        h'.denoted.dimensions (Option.some.inj hgrouping)
      exact ⟨htime, htags, fun _ => hfill⟩
  exact {
    fields := eq_of_map_eq (fun f hf f' hf' => fieldJson_inj (h.denoted.fields f hf) (h'.denoted.fields f' hf')) hfields
    sources := eq_of_map_eq (fun m hm m' hm' => marshalSource_inj (h.denoted.sources m hm) (h'.denoted.sources m' hm'))
      hsources
    condition := by
      cases hc : s.condition <;> cases hc' : s'.condition <;> simp only [hc, hc', Option.map_none, Option.map_some,
        reduceCtorEq, Option.some.injEq] at hcondition
      · rfl
      · rw [json_inj (h.denoted.condition _ hc) (h'.denoted.condition _ hc') hcondition]
    grouped := hgrouped
    time := hparts.1
    tags := hparts.2.1
    fill := hparts.2.2
    order := eq_of_map_eq (fun f _ f' _ => marshalSortField_inj) horder
    limit := hlimit
    offset := hoffset
    slimit := hslimit
    soffset := hsoffset }

/-- The analysis is right of two statements if and only if neither stops the
process and, if they are encoded and differ, both are shown as they are and
differ in more than the encoding leaves out. -/
theorem analysed_iff (s s' : SelectStatement) : Analysed s s' ↔
    ¬ s.Stops ∧ ¬ s'.Stops ∧ (s.Encodes → s'.Encodes → s ≠ s' → s.Exact ∧ s'.Exact ∧ ¬ s.ShownAlike s') := by
  have ho := marshalSelectStatement_outcome s
  have ho' := marshalSelectStatement_outcome s'
  rw [Analysed, ne_eq, ne_eq, ← ho.fatal, ← ho'.fatal]
  refine and_congr_right' (and_congr_right' ⟨fun h he he' hne => ?_, fun h j j' hj hj' hne => ?_⟩)
  · obtain ⟨j, hj⟩ := ho.ok.mp he
    obtain ⟨j', hj'⟩ := ho'.ok.mp he'
    obtain ⟨hjj, ⟨rfl, hd⟩, ⟨rfl, hd'⟩⟩ := h j j' hj hj' hne
    refine ⟨⟨(marshalSelectStatement_eq_json_iff s).mp hj, hd⟩, ⟨(marshalSelectStatement_eq_json_iff s').mp hj', hd'⟩, ?_⟩
    exact fun halike => hjj (json_eq_of_shownAlike halike)
  · obtain ⟨hexact, hexact', hdiffer⟩ := h (ho.ok.mpr ⟨j, hj⟩) (ho'.ok.mpr ⟨j', hj'⟩) hne
    have hjson : j = s.json :=
      Except.ok.inj (hj.symm.trans ((marshalSelectStatement_eq_json_iff s).mpr hexact.plain))
    have hjson' : j' = s'.json :=
      Except.ok.inj (hj'.symm.trans ((marshalSelectStatement_eq_json_iff s').mpr hexact'.plain))
    refine ⟨fun heq => hdiffer ?_, ⟨hjson, hexact.denoted⟩, ⟨hjson', hexact'.denoted⟩⟩
    exact shownAlike_of_json_eq hexact hexact' (hjson.symm.trans (heq.trans hjson'))

/-- `SELECT load1 FROM telegraf.autogen.system WHERE "ho\"st" = 'a'`. -/
def quotedReference : SelectStatement where
  fields := [⟨.varRef "load1" .unknown, ""⟩]
  sources := [⟨"telegraf", "autogen", "system", none⟩]
  condition := some (.binary .eq (.varRef "ho\"st" .unknown) (.string "a"))
  dimensions := []
  fill := .null
  sortFields := []
  limit := 0
  offset := 0
  slimit := 0
  soffset := 0

/-- A quote in an identifier of the condition stops the process. -/
theorem quoted_reference_stops : marshalSelectStatement quotedReference = .error .fatal ∧
    ¬ ∀ s s' : SelectStatement, Analysed s s' := by
  have hread : Json.read (varRefText "ho\"st" .unknown) = none := by
    rw [← Option.isNone_iff_eq_none]
    decide +kernel
  have hfatal : marshalSelectStatement quotedReference = .error .fatal := by
    have hexpr : marshalExpr (.binary .eq (.varRef "ho\"st" .unknown) (.string "a")) = .error .fatal := by
      have hvarRef : marshalExpr (.varRef "ho\"st" .unknown) = .error .error := by
        unfold marshalExpr pasted
        rw [hread]
      rw [marshalExpr, hvarRef]
      rfl
    unfold marshalSelectStatement
    rw [quotedReference, marshalCondition, hexpr]
    rfl
  exact ⟨hfatal, fun h => (h quotedReference quotedReference).1 hfatal⟩

end Queries
end Chronograf
