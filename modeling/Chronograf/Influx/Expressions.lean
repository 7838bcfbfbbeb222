/-
# What the JSON of an expression tells

An encoder ends with JSON, with an error or by stopping the process; the
expression says which. Its JSON has the identifiers as they are if and only if
those that are pasted into it are plain. Expressions whose literals are read
back from their texts then have different JSON.

Key definitions: `Outcome`, `Expr.Encodes`, `Expr.Stops`, `Expr.Plain`,
`Expr.Denoted`, `Expr.json`.
Key theorems: `marshalExpr_outcome`, `marshalExpr_eq_json_iff`, `json_inj`.
-/
import Chronograf.Influx.Queries
import Mathlib.Tactic.Tauto

namespace Chronograf
namespace Queries

open Influxql

/-! ### How an encoder ends -/

/-- The encoder gives a value if and only if `encodes`, and stops the process if
and only if `stops`. -/
structure Outcome {α : Type} (p : Except Failure α) (encodes stops : Prop) : Prop where
  ok : encodes ↔ ∃ a, p = .ok a
  fatal : stops ↔ p = .error .fatal

namespace Outcome

variable {α β : Type} {p : Except Failure α} {e e' s s' : Prop}

theorem ret (a : α) : Outcome (.ok a) True False :=
  ⟨⟨fun _ => ⟨a, rfl⟩, fun _ => trivial⟩, ⟨False.elim, fun h => nomatch h⟩⟩

theorem error : Outcome (.error .error : Except Failure α) False False :=
  ⟨⟨False.elim, fun ⟨_, h⟩ => nomatch h⟩, ⟨False.elim, fun h => nomatch h⟩⟩

theorem congr (h : Outcome p e s) (he : e ↔ e') (hs : s ↔ s') : Outcome p e' s' :=
  ⟨he.symm.trans h.ok, hs.symm.trans h.fatal⟩

theorem bind {f : α → Except Failure β} (hp : Outcome p e s) (hf : ∀ a, Outcome (f a) e' s') :
    Outcome (p >>= f) (e ∧ e') (s ∨ e ∧ s') := by
  cases p with
  | ok a =>
    have he : e := hp.ok.mpr ⟨a, rfl⟩
    have hs : ¬ s := fun hs => nomatch hp.fatal.mp hs
    exact (hf a).congr ⟨fun h => ⟨he, h⟩, And.right⟩ ⟨fun h => .inr ⟨he, h⟩, fun h => (h.resolve_left hs).2⟩
  | error x =>
    have he : ¬ e := fun he => nomatch hp.ok.mp he
    refine ⟨⟨fun h => absurd h.1 he, fun ⟨_, h⟩ => nomatch h⟩, ?_⟩
    show _ ↔ (.error x : Except Failure β) = _
    rw [or_iff_left (fun h => he h.1), hp.fatal, Except.error.injEq, Except.error.injEq]

/-- What is done with the value does not matter if it cannot fail. -/
theorem map {f : α → Except Failure β} (hp : Outcome p e s) (hf : ∀ a, ∃ b, f a = .ok b) : Outcome (p >>= f) e s := by
  have hret : ∀ a, Outcome (f a) True False := by
    intro a
    obtain ⟨b, hb⟩ := hf a
    rw [hb]
    exact ret b
  exact (hp.bind hret).congr (iff_of_eq (and_true e)) (by tauto)

theorem orFatal (hp : Outcome p e s) : Outcome (orFatal p) e (¬ e) := by
  cases p with
  | ok a =>
    have he : e := hp.ok.mpr ⟨a, rfl⟩
    exact (ret a).congr ⟨fun _ => he, fun _ => trivial⟩ ⟨False.elim, fun h => h he⟩
  | error x =>
    have he : ¬ e := fun he => nomatch hp.ok.mp he
    exact ⟨⟨fun h => absurd h he, fun ⟨_, h⟩ => nomatch h⟩, ⟨fun _ => rfl, fun _ => he⟩⟩

theorem pasted (text : List Char) : Outcome (pasted text) (Json.read text).isSome False := by
  unfold Queries.pasted
  cases Json.read text with
  | none => exact error.congr (by simp) Iff.rfl
  | some j => exact (ret j).congr (by simp) Iff.rfl

end Outcome

end Queries

/-! ### Expressions -/

namespace Influxql
namespace Expr

mutual

/-- The expression can be encoded: with each of its identifiers pasted into it
the text is JSON. -/
def Encodes : Expr → Prop
  | binary _ lhs rhs => lhs.Encodes ∧ rhs.Encodes
  | call _ args => EncodesAll args
  | paren e => e.Encodes
  | distinct v => (Json.read (Queries.distinctText v)).isSome
  | varRef v type => (Json.read (Queries.varRefText v type)).isSome
  | _ => True

def EncodesAll : List Expr → Prop
  | [] => True
  | e :: es => e.Encodes ∧ EncodesAll es

end

mutual

/-- The encoding stops the process: it comes to an operand or an expression in
parentheses that cannot be encoded. -/
def Stops : Expr → Prop
  | binary _ lhs rhs => ¬ (lhs.Encodes ∧ rhs.Encodes)
  | call _ args => StopsAny args
  | paren e => ¬ e.Encodes
  | _ => False

def StopsAny : List Expr → Prop
  | [] => False
  | e :: es => e.Stops ∨ e.Encodes ∧ StopsAny es

end

mutual

/-- The identifiers that are pasted stand for themselves. -/
def Plain : Expr → Prop
  | binary _ lhs rhs => lhs.Plain ∧ rhs.Plain
  | call _ args => PlainAll args
  | paren e => e.Plain
  | distinct v => Json.Plain v.toList
  | varRef v _ => Json.Plain v.toList
  | _ => True

def PlainAll : List Expr → Prop
  | [] => True
  | e :: es => e.Plain ∧ PlainAll es

end

mutual

/-- Each number is read back from its text with three decimals, and no duration
has a part of a microsecond. -/
def Denoted : Expr → Prop
  | binary _ lhs rhs => lhs.Denoted ∧ rhs.Denoted
  | call _ args => DenotedAll args
  | paren e => e.Denoted
  | number x => x.ReadsBack 3
  | duration d => microsecond ∣ d
  | _ => True

def DenotedAll : List Expr → Prop
  | [] => True
  | e :: es => e.Denoted ∧ DenotedAll es

end

def varRefJson (v : String) (type : DataType) : Json :=
  .obj ([("expr", .str "reference"), ("val", .str v)] ++ if type ≠ .unknown then [("type", .str type.text)] else [])

mutual

/-- The JSON of the expression with each identifier as it is. -/
def json : Expr → Json
  | binary op lhs rhs => .obj [("expr", .str "binary"), ("op", .str op.string), ("lhs", lhs.json), ("rhs", rhs.json)]
  | boolean b => Queries.literalJSON (booleanText b) "boolean"
  | call name args =>
    .obj ([("expr", .str "call"), ("name", .str name)] ++ Queries.optional "args" (Queries.nonemptyList (jsonAll args)))
  | distinct v => .obj [("expr", .str "distinct"), ("val", .str v)]
  | duration d => Queries.literalJSON (formatDuration d) "duration"
  | integer i => Queries.literalJSON (Int.repr i) "integer"
  | number x => Queries.literalJSON (numberText x) "number"
  | paren e => .obj [("expr", .str "paren"), ("val", e.json)]
  | regex r => Queries.literalJSON (regexText r) "regex"
  | string s => Queries.literalJSON s "string"
  | varRef v type => varRefJson v type
  | wildcard type => .obj [("expr", .str "wildcard"), ("val", .str (wildcardText type))]

def jsonAll : List Expr → List Json
  | [] => []
  | e :: es => e.json :: jsonAll es

end

end Expr
end Influxql

namespace Queries

open Influxql

/-! ### Pasted identifiers -/

theorem read_distinctText_iff (v : String) :
    Json.read (distinctText v) = some (.obj [("expr", .str "distinct"), ("val", .str v)]) ↔ Json.Plain v.toList := by
  have htext : distinctText v = '{' :: '"' :: ("expr".toList ++ '"' :: ':' :: ' ' :: '"' :: ("distinct".toList ++
      '"' :: ',' :: ([' '] ++ '"' :: ("val".toList ++ '"' :: ':' :: ' ' :: '"' :: (v.toList ++ '"' :: ['}']))))) := by
    unfold distinctText
    simp only [String.reduceToList, List.cons_append, List.nil_append]
  rw [htext]
  exact Json.read_pasted_iff (by decide) (by decide) (by decide) rfl (by decide) fun x n => Json.next_close x (n + 2)

theorem read_varRefText_iff (v : String) (type : DataType) :
    Json.read (varRefText v type) = some (Expr.varRefJson v type) ↔ Json.Plain v.toList := by
  by_cases hu : type = .unknown
  · have htext : varRefText v type = '{' :: '"' :: ("expr".toList ++ '"' :: ':' :: ' ' :: '"' :: ("reference".toList ++
        '"' :: ',' :: ([' ', ' '] ++ '"' :: ("val".toList ++ '"' :: ':' :: ' ' :: '"' :: (v.toList ++
          '"' :: ['}']))))) := by
      simp [varRefText, hu]
    have hjson : Expr.varRefJson v type = .obj [("expr", .str "reference"), ("val", .str v)] := by
      simp [Expr.varRefJson, hu]
    rw [htext, hjson]
    exact Json.read_pasted_iff (by decide) (by decide) (by decide) rfl (by decide) fun x n => Json.next_close x (n + 2)
  · have htext : varRefText v type = '{' :: '"' :: ("expr".toList ++ '"' :: ':' :: ' ' :: '"' :: ("reference".toList ++
        '"' :: ',' :: ([' '] ++ '"' :: ("val".toList ++ '"' :: ':' :: ' ' :: '"' :: (v.toList ++ '"' ::
          (',' :: ([' '] ++ '"' :: ("type".toList ++ '"' :: ':' :: ' ' :: '"' :: (type.text.toList ++
            '"' :: ['}']))))))))) := by
      simp [varRefText, hu]
    have hjson : Expr.varRefJson v type =
        .obj (("expr", .str "reference") :: ("val", .str v) :: [("type", .str type.text)]) := by
      simp [Expr.varRefJson, hu]
    have htype : Json.Plain type.text.toList := by cases type <;> decide
    have hback : '\\' ∉ type.text.toList := by cases type <;> decide
    rw [htext, hjson]
    refine Json.read_pasted_iff (by decide) (by decide) (by decide) rfl (by simp [hback]) fun x n => ?_
    exact Json.next_string (by decide) htype x n

theorem read_wildcardPasted (type : WildcardType) :
    Json.read (wildcardPasted type) = some (.obj [("expr", .str "wildcard"), ("val", .str (wildcardText type))]) := by
  have hplain : Json.Plain (wildcardText type).toList := by cases type <;> decide
  have htext : wildcardPasted type = '{' :: '"' :: ("expr".toList ++ '"' :: ':' :: ' ' :: '"' :: ("wildcard".toList ++
      '"' :: ',' :: ([' '] ++ '"' :: ("val".toList ++ '"' :: ':' :: ' ' :: '"' :: ((wildcardText type).toList ++
        '"' :: ['}']))))) := by
    unfold wildcardPasted
    simp only [String.reduceToList, List.cons_append, List.nil_append]
  rw [htext]
  exact (Json.read_pasted_iff (by decide) (by decide) (by decide) rfl (by decide) fun x n =>
    Json.next_close x (n + 2)).mpr hplain

/-! ### How an expression is encoded -/

mutual

theorem marshalExpr_outcome : ∀ e : Expr, Outcome (marshalExpr e) e.Encodes e.Stops
  | .binary op lhs rhs => by
    have hl := (marshalExpr_outcome lhs).orFatal
    have hr := (marshalExpr_outcome rhs).orFatal
    rw [marshalExpr, Expr.Encodes, Expr.Stops]
    exact (hl.bind fun l => hr.map fun r => ⟨_, rfl⟩).congr Iff.rfl (by tauto)
  | .call name args => by
    rw [marshalExpr, Expr.Encodes, Expr.Stops]
    exact (marshalArgs_outcome args).map fun as => ⟨_, rfl⟩
  | .paren e => by
    rw [marshalExpr, Expr.Encodes, Expr.Stops]
    exact (marshalExpr_outcome e).orFatal.map fun j => ⟨_, rfl⟩
  | .distinct v => .pasted (distinctText v)
  | .varRef v type => .pasted (varRefText v type)
  | .wildcard type => by
    have hread : (Json.read (wildcardPasted type)).isSome := by rw [read_wildcardPasted]; rfl
    exact (Outcome.pasted (wildcardPasted type)).congr (iff_of_true hread trivial) Iff.rfl
  | .boolean b => .ret _
  | .duration d => .ret _
  | .integer i => .ret _
  | .number x => .ret _
  | .regex r => .ret _
  | .string s => .ret _

theorem marshalArgs_outcome : ∀ es : List Expr, Outcome (marshalArgs es) (Expr.EncodesAll es) (Expr.StopsAny es)
  | [] => .ret _
  | e :: es => by
    rw [marshalArgs, Expr.EncodesAll, Expr.StopsAny]
    exact (marshalExpr_outcome e).bind fun j => (marshalArgs_outcome es).map fun js => ⟨_, rfl⟩

end

theorem pasted_eq_ok_iff {text : List Char} {j : Json} : pasted text = .ok j ↔ Json.read text = some j := by
  unfold pasted
  cases Json.read text with
  | none => exact ⟨fun h => (nomatch h), fun h => (nomatch h)⟩
  | some j' => exact ⟨fun h => congrArg some (Except.ok.inj h), fun h => congrArg Except.ok (Option.some.inj h)⟩

/-- A value is made of two if it is that of their values. -/
theorem bind_eq_ok_iff {α β : Type} {p : Except Failure α} {f : α → Except Failure β} {b : β} :
    (p >>= f) = .ok b ↔ ∃ a, p = .ok a ∧ f a = .ok b := by
  cases p with
  | error x => exact ⟨fun h => (nomatch h), fun ⟨_, h, _⟩ => (nomatch h)⟩
  | ok a => exact ⟨fun h => ⟨a, rfl, h⟩, fun ⟨_, ha, h⟩ => Except.ok.inj ha ▸ h⟩

theorem orFatal_eq_ok_iff {α : Type} {p : Except Failure α} {a : α} : orFatal p = .ok a ↔ p = .ok a := by
  cases p with
  | error x => exact ⟨fun h => (nomatch h), fun h => (nomatch h)⟩
  | ok a' => exact Iff.rfl

theorem optional_list_inj {key : String} {as bs : List Json}
    (h : optional key (nonemptyList as) = optional key (nonemptyList bs)) : as = bs := by
  cases as <;> cases bs <;> simp_all [optional, nonemptyList]

theorem optional_string_inj {key a b : String} (h : optional key (nonempty a) = optional key (nonempty b)) : a = b := by
  unfold nonempty at h
  split_ifs at h <;> simp_all [optional]

mutual

/-- The encoder gives the identifiers as they are if and only if they are plain. -/
theorem marshalExpr_eq_json_iff : ∀ e : Expr, marshalExpr e = .ok e.json ↔ e.Plain
  | .binary op lhs rhs => by
    rw [marshalExpr, Expr.Plain, ← marshalExpr_eq_json_iff lhs, ← marshalExpr_eq_json_iff rhs, Expr.json]
    simp only [bind_eq_ok_iff, orFatal_eq_ok_iff]
    constructor
    · rintro ⟨l, hl, r, hr, h⟩
      simp only [pure, Except.pure, Except.ok.injEq, Json.obj.injEq, List.cons.injEq, Prod.mk.injEq, true_and,
        and_true] at h
      exact ⟨h.1 ▸ hl, h.2 ▸ hr⟩
    · exact fun ⟨hl, hr⟩ => ⟨_, hl, _, hr, rfl⟩
  | .call name args => by
    rw [marshalExpr, Expr.Plain, ← marshalArgs_eq_json_iff args, Expr.json, bind_eq_ok_iff]
    constructor
    · rintro ⟨as, has, h⟩
      have hargs := List.append_cancel_left (Json.obj.inj (Except.ok.inj h))
      exact optional_list_inj hargs ▸ has
    · exact fun has => ⟨_, has, rfl⟩
  | .paren e => by
    rw [marshalExpr, Expr.Plain, ← marshalExpr_eq_json_iff e, Expr.json]
    simp only [bind_eq_ok_iff, orFatal_eq_ok_iff]
    constructor
    · rintro ⟨j, hj, h⟩
      simp only [pure, Except.pure, Except.ok.injEq, Json.obj.injEq, List.cons.injEq, Prod.mk.injEq, true_and,
        and_true] at h
      exact h ▸ hj
    · exact fun hj => ⟨_, hj, rfl⟩
  | .distinct v => by
    rw [marshalExpr, Expr.Plain, Expr.json, pasted_eq_ok_iff]
    exact read_distinctText_iff v
  | .varRef v type => by
    rw [marshalExpr, Expr.Plain, Expr.json, pasted_eq_ok_iff]
    exact read_varRefText_iff v type
  | .wildcard type => iff_of_true (pasted_eq_ok_iff.mpr (read_wildcardPasted type)) trivial
  | .boolean b => iff_of_true rfl trivial
  | .duration d => iff_of_true rfl trivial
  | .integer i => iff_of_true rfl trivial
  | .number x => iff_of_true rfl trivial
  | .regex r => iff_of_true rfl trivial
  | .string s => iff_of_true rfl trivial

theorem marshalArgs_eq_json_iff : ∀ es : List Expr, marshalArgs es = .ok (Expr.jsonAll es) ↔ Expr.PlainAll es
  | [] => iff_of_true rfl trivial
  | e :: es => by
    rw [marshalArgs, Expr.PlainAll, ← marshalExpr_eq_json_iff e, ← marshalArgs_eq_json_iff es, Expr.jsonAll]
    simp only [bind_eq_ok_iff]
    constructor
    · rintro ⟨j, hj, js, hjs, h⟩
      obtain ⟨rfl, rfl⟩ := List.cons.inj (Except.ok.inj h)
      exact ⟨hj, hjs⟩
    · exact fun ⟨hj, hjs⟩ => ⟨_, hj, _, hjs, rfl⟩

end

/-! ### What the JSON of an expression tells -/

theorem operator_string_inj : ∀ {op op' : Operator}, op.string = op'.string → op = op' := by
  intro op op'
  cases op <;> cases op' <;> decide

theorem dataType_text_inj : ∀ {type type' : DataType}, type.text = type'.text → type = type' := by
  intro type type'
  cases type <;> cases type' <;> decide

theorem wildcardText_inj : ∀ {type type' : WildcardType}, wildcardText type = wildcardText type' → type = type' := by
  intro type type'
  cases type <;> cases type' <;> decide

theorem varRefJson_inj {v v' : String} {type type' : DataType} (h : Expr.varRefJson v type = Expr.varRefJson v' type') :
    v = v' ∧ type = type' := by
  unfold Expr.varRefJson at h
  split_ifs at h with ht ht' ht' <;> simp at h
  · exact ⟨h.1, dataType_text_inj h.2⟩
  · exact ⟨h, (not_not.mp ht).trans (not_not.mp ht').symm⟩

mutual

/-- Expressions whose literals are read back have different JSON. -/
theorem json_inj : ∀ {e e' : Expr}, e.Denoted → e'.Denoted → e.json = e'.json → e = e'
  | .binary op lhs rhs, e', hd, hd', h => by
    cases e' <;> simp [Expr.json, literalJSON, Expr.varRefJson] at h
    obtain ⟨hop, hl, hr⟩ := h
    rw [operator_string_inj hop, json_inj hd.1 hd'.1 hl, json_inj hd.2 hd'.2 hr]
  | .boolean b, e', _, _, h => by
    cases e' <;> simp [Expr.json, literalJSON, Expr.varRefJson] at h
    rw [booleanText_inj h]
  | .call name args, e', hd, hd', h => by
    cases e' <;> simp [Expr.json, literalJSON, Expr.varRefJson] at h
    obtain ⟨rfl, hargs⟩ := h
    rw [jsonAll_inj hd hd' (optional_list_inj hargs)]
  | .distinct v, e', _, _, h => by
    cases e' <;> simp [Expr.json, literalJSON, Expr.varRefJson] at h
    rw [h]
  | .duration d, e', hd, hd', h => by
    cases e' <;> simp [Expr.json, literalJSON, Expr.varRefJson] at h
    rw [eq_of_formatDuration hd hd' h]
  | .integer i, e', _, _, h => by
    cases e' <;> simp [Expr.json, literalJSON, Expr.varRefJson] at h
    exact congrArg Expr.integer (intRepr_inj (by simpa using h))
  | .number x, e', hd, hd', h => by
    cases e' <;> simp [Expr.json, literalJSON, Expr.varRefJson] at h
    rw [Float64.eq_of_fixed hd hd' (String.ofList_inj.mp h)]
  | .paren e, e', hd, hd', h => by
    cases e' with
    | paren f =>
      have hjson : e.json = f.json := by simpa [Expr.json] using h
      have hf : e = f := json_inj hd hd' hjson
      rw [hf]
    | _ => simp [Expr.json, literalJSON, Expr.varRefJson] at h
  | .regex r, e', _, _, h => by
    cases e' <;> simp [Expr.json, literalJSON, Expr.varRefJson] at h
    rw [regexText_inj h]
  | .string s, e', _, _, h => by
    cases e' <;> simp [Expr.json, literalJSON, Expr.varRefJson] at h
    rw [h]
  | .varRef v type, e', _, _, h => by
    cases e' with
    | varRef v' type' =>
      obtain ⟨rfl, rfl⟩ := varRefJson_inj h
      rfl
    | _ => simp [Expr.json, literalJSON, Expr.varRefJson] at h
  | .wildcard type, e', _, _, h => by
    cases e' <;> simp [Expr.json, literalJSON, Expr.varRefJson] at h
    rw [wildcardText_inj h]

theorem jsonAll_inj : ∀ {es es' : List Expr}, Expr.DenotedAll es → Expr.DenotedAll es' →
    Expr.jsonAll es = Expr.jsonAll es' → es = es'
  | [], [], _, _, _ => rfl
  | [], _ :: _, _, _, h => nomatch h
  | _ :: _, [], _, _, h => nomatch h
  | e :: es, e' :: es', hd, hd', h => by
    obtain ⟨he, hes⟩ := List.cons.inj h
    rw [json_inj hd.1 hd'.1 he, jsonAll_inj hd.2 hd'.2 hes]

end

end Queries
end Chronograf
