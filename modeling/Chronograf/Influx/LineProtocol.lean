/-
# The line protocol

`influx/lineprotocol.go`: the line of a point, and a reader of lines. The rules
of the reader: a comma and a space in a measurement, and these and `=` in a tag
and in the key of a field, stand behind a backslash, which stands for itself
anywhere else; in a quoted string a quote and a backslash do; a line that begins
with `#` is a comment; no key and no tag value is empty; the time is optional.
What a line is the text of is read from it, if its keys and tag values are plain.

Key definitions: `Point`, `toLineProtocol`, `readLine`, `Point.ReadsBack`, `Point.Writable`.
Key theorems: `toLineProtocol_text`, `readLine_text`.
-/
import Chronograf.Influx.Influxql
import Chronograf.Lib.Escapes
import Chronograf.Lib.Marshal
import Mathlib.Algebra.BigOperators.Group.List.Basic
import Mathlib.Data.List.Perm.Basic
import Mathlib.Data.List.Sort

namespace Chronograf
namespace LineProtocol

open Escapes

/-! ### Writing -/

/-- A value of a field; what is of no type of InfluxDB is left out. -/
inductive FieldValue
  | int (n : ℤ)
  | uint (n : ℕ)
  | float (x : Float64)
  | string (s : String)
  | bool (b : Bool)
  | other

/-- A point; its tags and its fields come in some order. -/
structure Point where
  measurement : String
  tags : List (String × String)
  fields : List (String × FieldValue)
  time : ℤ

def escapeMeasurement (c : Char) : Bool := c = ',' || c = ' '

def escapeKeys (c : Char) : Bool := c = ',' || c = '"' || c = ' ' || c = '='

def escapeTagValues (c : Char) : Bool := c = ',' || c = '"' || c = ' ' || c = '='

def escapeFieldStrings (c : Char) : Bool := c = '"' || c = '\\'

/-- What a replacer makes of a text. -/
def replace (replacer : Char → Bool) (s : String) : String := String.ofList (escape replacer s.toList)

def formatTag (t : String × String) : String := replace escapeKeys t.1 ++ "=" ++ replace escapeTagValues t.2

def formatValue : FieldValue → Option String
  | .int n => some (Int.repr n ++ "i")
  | .uint n => some (Nat.repr n ++ "u")
  | .float x => some (String.ofList (x.fixed 6))
  | .string s => some ("\"" ++ replace escapeFieldStrings s ++ "\"")
  | .bool b => some (if b then "true" else "false")
  | .other => none

def formatField (f : String × FieldValue) : Option String :=
  (formatValue f.2).map fun v => replace escapeKeys f.1 ++ "=" ++ v

/-- Tags without a value are dropped. -/
def Point.kept (p : Point) : List (String × String) := p.tags.filter (·.2 ≠ "")

def sorted (texts : List String) : List String := texts.insertionSort (· ≤ ·)

def toLineProtocol (p : Point) : Except String String :=
  let measurement := replace escapeMeasurement p.measurement
  if measurement.length = 0 then .error "measurement required to write point"
  else if p.fields.length = 0 then .error "at least one field required to write point"
  else
    let tags := sorted (p.kept.map formatTag)
    let fields := sorted (p.fields.filterMap formatField)
    let lp := measurement ++ if 0 < tags.length then "," ++ ",".intercalate tags else ""
    let lp := lp ++ " " ++ ",".intercalate fields
    .ok (lp ++ if p.time ≠ 0 then " " ++ Int.repr p.time else "")

/-! ### Reading -/

/-- A value that is read; of a float its text. -/
inductive Value
  | integer (n : ℤ)
  | unsigned (n : ℕ)
  | float (text : String)
  | string (s : String)
  | boolean (b : Bool)
  deriving DecidableEq

structure Read where
  measurement : String
  tags : List (String × String)
  fields : List (String × Value)
  time : Option ℤ
  deriving DecidableEq

/-- A comma, a space or `=`. -/
def keySpecial (c : Char) : Bool := c = ',' || c = '=' || c = ' '

/-- A tag and what comes after it. -/
def readTag (cs : List Char) : Option ((String × String) × List Char) :=
  match readText keySpecial cs with
  | ([], _) => none
  | (k, '=' :: cs) =>
    match readText keySpecial cs with
    | ([], _) => none
    | (v, rest) => some ((String.ofList k, String.ofList v), rest)
  | _ => none

/-- The tags, up to the space after them. -/
def readTags : ℕ → List Char → Option (List (String × String) × List Char)
  | 0, _ => none
  | n + 1, cs =>
    match readTag cs with
    | some (t, ',' :: rest) => (readTags n rest).map fun r => (t :: r.1, r.2)
    | some (t, ' ' :: rest) => some ([t], rest)
    | _ => none

/-- Decimal digits, with an optional fraction and an optional exponent. -/
def isFloat (cs : List Char) : Bool :=
  let digits := fun ds : List Char => ds ≠ [] ∧ ds.all Char.isDigit
  let unsigned := if cs.head? = some '-' then cs.tail else cs
  let mantissa := unsigned.takeWhile fun c => c ≠ 'e' ∧ c ≠ 'E'
  let exponent := (unsigned.dropWhile fun c => c ≠ 'e' ∧ c ≠ 'E').tail
  let signed := exponent.head? = some '-' ∨ exponent.head? = some '+'
  digits (mantissa.takeWhile (· ≠ '.') ++ (mantissa.dropWhile (· ≠ '.')).tail) ∧
    (unsigned = mantissa ∨ digits (if signed then exponent.tail else exponent))

def trueWords : List (List Char) := ["t".toList, "T".toList, "true".toList, "True".toList, "TRUE".toList]

def falseWords : List (List Char) := ["f".toList, "F".toList, "false".toList, "False".toList, "FALSE".toList]

/-- A value that is no string. -/
def readWord (cs : List Char) : Option Value :=
  if cs ∈ trueWords then some (.boolean true)
  else if cs ∈ falseWords then some (.boolean false)
  else if cs.getLast? = some 'i' then (Marshal.integer (String.ofList cs.dropLast)).map .integer
  else if cs.getLast? = some 'u' then (Marshal.wholeDigits cs.dropLast).map .unsigned
  else if isFloat cs then some (.float (String.ofList cs))
  else none

/-- A value and what comes after it. -/
def readValue : List Char → Option (Value × List Char)
  | '"' :: cs => (readQuoted cs).map fun r => (.string (String.ofList r.1), r.2)
  | cs => (readWord (cs.takeWhile fun c => c ≠ ',' ∧ c ≠ ' ')).map fun v => (v, cs.dropWhile fun c => c ≠ ',' ∧ c ≠ ' ')

/-- A field and what comes after it. -/
def readField (cs : List Char) : Option ((String × Value) × List Char) :=
  match readText keySpecial cs with
  | ([], _) => none
  | (k, '=' :: cs) => (readValue cs).map fun r => ((String.ofList k, r.1), r.2)
  | _ => none

def readFields : ℕ → List Char → Option (List (String × Value) × List Char)
  | 0, _ => none
  | n + 1, cs =>
    match readField cs with
    | some (f, ',' :: rest) => (readFields n rest).map fun r => (f :: r.1, r.2)
    | some (f, rest) => some ([f], rest)
    | none => none

def readTime : List Char → Option (Option ℤ)
  | [] => some none
  | ' ' :: cs => (Marshal.integer (String.ofList cs)).map some
  | _ => none

/-- The fields and the time. -/
def readRest (measurement : String) (tags : List (String × String)) (cs : List Char) : Option Read := do
  let (fields, rest) ← readFields cs.length cs
  let time ← readTime rest
  return ⟨measurement, tags, fields, time⟩

def readLine (line : String) : Option Read :=
  if line.toList.head? = some '#' then none
  else
    match readText escapeMeasurement line.toList with
    | ([], _) => none
    | (m, ',' :: cs) => do
      let (tags, rest) ← readTags cs.length cs
      readRest (String.ofList m) tags rest
    | (m, ' ' :: cs) => readRest (String.ofList m) [] cs
    | _ => none

/-! ### Round trip -/

/-- The value of a field of the types that are written exactly. -/
def FieldValue.value : FieldValue → Option Value
  | .int n => some (.integer n)
  | .uint n => some (.unsigned n)
  | .string s => some (.string s)
  | .bool b => some (.boolean b)
  | .float _ | .other => none

/-- A measurement and a field, and only strings, booleans and integers. -/
structure Point.Exact (p : Point) : Prop where
  measurement : p.measurement ≠ ""
  fields : p.fields ≠ []
  values : ∀ f ∈ p.fields, f.2.value.isSome

/-- What is read is the point, but for tags without a value. -/
structure Point.Same (p : Point) (r : Read) : Prop where
  measurement : r.measurement = p.measurement
  tags : r.tags.Perm p.kept
  fields : (r.fields.map fun f => (f.1, some f.2)).Perm (p.fields.map fun f => (f.1, f.2.value))
  time : r.time = some p.time

/-- The line is one line, and read back as the point. -/
def Point.ReadsBack (p : Point) : Prop :=
  ∃ line, toLineProtocol p = .ok line ∧ '\n' ∉ line.toList ∧ ∃ r, readLine line = some r ∧ p.Same r

/-- A key or a tag value: it has a character but no quotes, and does not end with a backslash. -/
structure Plain (s : String) : Prop where
  ne : s ≠ ""
  quotes : '"' ∉ s.toList
  last : s.toList.getLast? ≠ some '\\'

instance (s : String) : Decidable (Plain s) :=
  decidable_of_iff (s ≠ "" ∧ '"' ∉ s.toList ∧ s.toList.getLast? ≠ some '\\')
    ⟨fun h => ⟨h.1, h.2.1, h.2.2⟩, fun h => ⟨h.ne, h.quotes, h.last⟩⟩

/-- The line has a time, its measurement starts no comment and does not end with a backslash, its keys and tag values are
plain, and it has no line breaks. -/
structure Point.Writable (p : Point) : Prop where
  time : p.time ≠ 0
  comment : p.measurement.toList.head? ≠ some '#'
  last : p.measurement.toList.getLast? ≠ some '\\'
  tags : ∀ t ∈ p.kept, Plain t.1 ∧ Plain t.2
  keys : ∀ f ∈ p.fields, Plain f.1
  oneLine : '\n' ∉ p.measurement.toList ∧ (∀ t ∈ p.kept, '\n' ∉ t.1.toList ∧ '\n' ∉ t.2.toList) ∧
    ∀ f ∈ p.fields, '\n' ∉ f.1.toList ∧ ∀ s, f.2 = .string s → '\n' ∉ s.toList

/-! ### The text of a line -/

/-- The text of a value: an integer has its letter, a string its quotes. -/
def Value.text : Value → List Char
  | .integer n => (Int.repr n).toList ++ ['i']
  | .unsigned n => Nat.toDigits 10 n ++ ['u']
  | .float text => text.toList
  | .string s => '"' :: escape isQuoted s.toList ++ ['"']
  | .boolean b => if b then "true".toList else "false".toList

def tagText (t : String × String) : List Char := escape escapeKeys t.1.toList ++ '=' :: escape escapeKeys t.2.toList

def fieldText (f : String × Value) : List Char := escape escapeKeys f.1.toList ++ '=' :: f.2.text

def tagsText (tags : List (String × String)) : List Char :=
  if tags = [] then [] else ',' :: [','].intercalate (tags.map tagText)

def timeText (time : ℤ) : List Char := if time = 0 then [] else ' ' :: (Int.repr time).toList

def lineText (measurement : String) (tags : List (String × String)) (fields : List (String × Value)) (time : ℤ) : List Char :=
  escape escapeMeasurement measurement.toList ++ (tagsText tags ++ ' ' :: ([','].intercalate (fields.map fieldText) ++ timeText time))

/-- The fields that are written. -/
def Point.values (p : Point) : List (String × Value) := p.fields.filterMap fun f => f.2.value.map (f.1, ·)

section Texts

variable {p : Point}

theorem toList_replace (replacer : Char → Bool) (s : String) : (replace replacer s).toList = escape replacer s.toList :=
  String.toList_ofList

theorem toList_formatTag (t : String × String) : (formatTag t).toList = tagText t := by
  rw [formatTag, String.toList_append, String.toList_append, toList_replace, toList_replace, List.append_assoc]
  rfl

theorem toList_formatValue {v : FieldValue} {x : Value} (h : v.value = some x) :
    (formatValue v).map String.toList = some x.text := by
  cases v with
  | int n | uint n | bool b =>
    cases h
    simp [formatValue, Value.text, apply_ite String.toList]
  | string s =>
    cases h
    simp [formatValue, Value.text, toList_replace]
    rfl
  | float | other => cases h

theorem toList_formatFields : ∀ {fields : List (String × FieldValue)}, (∀ f ∈ fields, f.2.value.isSome) →
    (fields.filterMap formatField).map String.toList =
      (fields.filterMap fun f => f.2.value.map (f.1, ·)).map fieldText
  | [], _ => rfl
  | f :: fields, h => by
    obtain ⟨x, hx⟩ := Option.isSome_iff_exists.mp (h f List.mem_cons_self)
    obtain ⟨text, htext, hlist⟩ := Option.map_eq_some_iff.mp (toList_formatValue hx)
    have hfield : formatField f = some (replace escapeKeys f.1 ++ "=" ++ text) := by rw [formatField, htext]; rfl
    rw [List.filterMap_cons_some hfield, List.filterMap_cons_some (by rw [hx]; rfl), List.map_cons, List.map_cons,
      toList_formatFields fun g hg => h g (List.mem_cons_of_mem f hg), String.toList_append, String.toList_append, toList_replace,
      hlist, fieldText, List.append_assoc]
    rfl

/-- Texts that are sorted are those of the same things in some order. -/
theorem exists_sorted {α : Type} (text : α → List Char) (texts : List String) (xs : List α)
    (h : texts.map String.toList = xs.map text) : ∃ ys : List α, ys.Perm xs ∧ (sorted texts).map String.toList = ys.map text := by
  have hperm : ((sorted texts).map String.toList).Perm (xs.map text) := by
    rw [← h]
    exact (List.perm_insertionSort _ _).map _
  have hmap := (congrFun (congrFun (List.eq_map_comp_perm text) ((sorted texts).map String.toList)) xs).mpr hperm
  obtain ⟨ys, hys, hperm⟩ := hmap
  exact ⟨ys, hperm, hys⟩

/-- The line of a point, with its tags and its fields in the order of their texts. -/
theorem toLineProtocol_text (h : p.Exact) : ∃ line tags fields, toLineProtocol p = .ok line ∧ tags.Perm p.kept ∧
    fields.Perm p.values ∧ line.toList = lineText p.measurement tags fields p.time := by
  obtain ⟨tags, htags, htagTexts⟩ := exists_sorted tagText (p.kept.map formatTag) p.kept (by
    rw [List.map_map]
    exact List.map_congr_left fun t _ => toList_formatTag t)
  obtain ⟨fields, hfields, hfieldTexts⟩ := exists_sorted fieldText _ _ (toList_formatFields h.values)
  have hmeasurement : (replace escapeMeasurement p.measurement).length ≠ 0 := by
    rw [← String.length_toList, toList_replace, Ne, List.length_eq_zero_iff, escape_eq_nil, String.toList_eq_nil_iff]
    exact h.measurement
  have hne : p.fields.length ≠ 0 := by
    rw [Ne, List.length_eq_zero_iff]
    exact h.fields
  refine ⟨_, tags, fields, by rw [toLineProtocol, if_neg hmeasurement, if_neg hne], htags, hfields, ?_⟩
  have htagsText : (if 0 < (sorted (p.kept.map formatTag)).length then
      "," ++ ",".intercalate (sorted (p.kept.map formatTag)) else "").toList = tagsText tags := by
    have hlen := congrArg List.length htagTexts
    rw [List.length_map, List.length_map] at hlen
    rw [hlen, tagsText]
    by_cases hnil : tags = []
    · rw [if_pos hnil, if_neg (by simp [hnil])]
      rfl
    · rw [if_neg hnil, if_pos (List.length_pos_iff.mpr hnil), String.toList_append, String.toList_intercalate, htagTexts]
      rfl
  have htime : (if p.time ≠ 0 then " " ++ Int.repr p.time else "").toList = timeText p.time := by
    rw [timeText]
    by_cases hzero : p.time = 0
    · rw [if_neg (not_not.mpr hzero), if_pos hzero]
      rfl
    · rw [if_pos hzero, if_neg hzero, String.toList_append]
      rfl
  rw [String.toList_append, String.toList_append, String.toList_append, String.toList_append, toList_replace, htagsText,
    htime, String.toList_intercalate, hfieldTexts, lineText]
  simp

end Texts

/-! ### Reading what is written -/

section Reading

variable {rest : List Char} {c : Char}

/-- A key or a tag value in front of a separator is read as it is. -/
theorem readText_plain (rest : List Char) {s : String} (h : Plain s) (hline : '\n' ∉ s.toList) (hc : keySpecial c) :
    readText keySpecial (escape escapeKeys s.toList ++ c :: rest) = (s.toList, c :: rest) := by
  refine readText_escape rfl (fun x hx => ?_) hline h.last hc
  have hne : x ≠ '"' := fun heq => h.quotes (heq ▸ hx)
  simp only [escapeKeys, keySpecial, hne, decide_false, Bool.or_false]
  cases decide (x = ',') <;> cases decide (x = ' ') <;> cases decide (x = '=') <;> rfl

theorem Plain.cons {s : String} (h : Plain s) : ∃ d ds, s.toList = d :: ds :=
  List.exists_cons_of_ne_nil fun hnil => h.ne (String.toList_eq_nil_iff.mp hnil)

theorem readTag_text {t : String × String} (hk : Plain t.1) (hv : Plain t.2) (hkline : '\n' ∉ t.1.toList)
    (hvline : '\n' ∉ t.2.toList) (hc : keySpecial c) : readTag (tagText t ++ c :: rest) = some (t, c :: rest) := by
  obtain ⟨d, ds, hd⟩ := hk.cons
  obtain ⟨e, es, he⟩ := hv.cons
  have hkey := readText_plain (escape escapeKeys t.2.toList ++ c :: rest) hk hkline (show keySpecial '=' from rfl)
  have hvalue := readText_plain rest hv hvline hc
  rw [readTag, tagText, List.append_assoc, List.cons_append, hkey, hd]
  show (match readText keySpecial (escape escapeKeys t.2.toList ++ c :: rest) with
    | ([], _) => none
    | (v, rest) => some ((String.ofList (d :: ds), String.ofList v), rest)) = _
  rw [hvalue, he]
  show some ((String.ofList (d :: ds), String.ofList (e :: es)), c :: rest) = _
  rw [← hd, ← he, String.ofList_toList, String.ofList_toList]

/-- The tags of a line. -/
theorem readTags_text : ∀ {n : ℕ} {tags : List (String × String)}, tags ≠ [] → tags.length ≤ n →
    (∀ t ∈ tags, Plain t.1 ∧ Plain t.2 ∧ '\n' ∉ t.1.toList ∧ '\n' ∉ t.2.toList) →
    readTags n ([','].intercalate (tags.map tagText) ++ ' ' :: rest) = some (tags, rest)
  | 0, t :: tags, _, hn, _ => absurd hn (by simp)
  | n + 1, [t], _, _, h => by
    obtain ⟨hk, hv, hkline, hvline⟩ := h t List.mem_cons_self
    rw [List.map_singleton, List.intercalate_singleton, readTags, readTag_text hk hv hkline hvline (by rfl)]
    rfl
  | n + 1, t :: u :: tags, _, hn, h => by
    obtain ⟨hk, hv, hkline, hvline⟩ := h t List.mem_cons_self
    rw [List.map_cons, List.map_cons, List.intercalate_cons_cons, ← List.map_cons, List.append_assoc, List.append_assoc,
      readTags, List.singleton_append, readTag_text hk hv hkline hvline (by rfl)]
    show (readTags n ([','].intercalate ((u :: tags).map tagText) ++ ' ' :: rest)).map (fun r => (t :: r.1, r.2)) = _
    rw [readTags_text (List.cons_ne_nil u tags) (Nat.le_of_succ_le_succ hn) fun x hx => h x (List.mem_cons_of_mem t hx)]
    rfl

/-- What a value ends before. -/
def Ends (rest : List Char) : Prop := ∀ c ∈ rest.head?, c = ',' ∨ c = ' '

theorem not_boolean {cs : List Char} (h : cs.getLast? = some 'i' ∨ cs.getLast? = some 'u') : cs ∉ trueWords ∧ cs ∉ falseWords := by
  have hwords : ∀ w ∈ trueWords ++ falseWords, w.getLast? ≠ some 'i' ∧ w.getLast? ≠ some 'u' := by decide
  have hnone : cs ∉ trueWords ++ falseWords := fun hw => h.elim (hwords cs hw).1 (hwords cs hw).2
  rwa [List.mem_append, not_or] at hnone

theorem readWord_integer (n : ℤ) : readWord ((Int.repr n).toList ++ ['i']) = some (.integer n) := by
  have hlast : ((Int.repr n).toList ++ ['i']).getLast? = some 'i' := by simp
  obtain ⟨htrue, hfalse⟩ := not_boolean (.inl hlast)
  rw [readWord, if_neg htrue, if_neg hfalse, if_pos hlast, List.dropLast_concat, String.ofList_toList, Marshal.integer_repr]
  rfl

theorem readWord_unsigned (n : ℕ) : readWord (Nat.toDigits 10 n ++ ['u']) = some (.unsigned n) := by
  have hlast : (Nat.toDigits 10 n ++ ['u']).getLast? = some 'u' := by simp
  obtain ⟨htrue, hfalse⟩ := not_boolean (.inr hlast)
  have hdigits := Marshal.wholeDigits_repr n
  rw [Nat.toList_repr] at hdigits
  rw [readWord, if_neg htrue, if_neg hfalse, if_neg (by rw [hlast]; decide), if_pos hlast, List.dropLast_concat, hdigits]
  rfl

theorem readWord_boolean (b : Bool) : readWord (Value.boolean b).text = some (.boolean b) := by
  cases b <;> decide

/-- A word is read up to the end of the value. -/
theorem readValue_word {word : List Char} {v : Value} (hword : readWord word = some v) (hends : Ends rest)
    (hplain : ∀ c ∈ word, c ≠ ',' ∧ c ≠ ' ' ∧ c ≠ '"') : readValue (word ++ rest) = some (v, rest) := by
  have hword' : ∀ c ∈ word, decide (c ≠ ',' ∧ c ≠ ' ') = true := fun c hc => decide_eq_true ⟨(hplain c hc).1, (hplain c hc).2.1⟩
  have hsplit : rest.takeWhile (fun c => c ≠ ',' ∧ c ≠ ' ') = [] ∧ rest.dropWhile (fun c => c ≠ ',' ∧ c ≠ ' ') = rest := by
    cases rest with
    | nil => exact ⟨rfl, rfl⟩
    | cons c rest => rcases hends c rfl with rfl | rfl <;> exact ⟨rfl, rfl⟩
  have htake : (word ++ rest).takeWhile (fun c => c ≠ ',' ∧ c ≠ ' ') = word := by
    rw [List.takeWhile_append_of_pos hword', hsplit.1, List.append_nil]
  have hdrop : (word ++ rest).dropWhile (fun c => c ≠ ',' ∧ c ≠ ' ') = rest := by
    rw [List.dropWhile_append_of_pos hword', hsplit.2]
  rw [readValue.eq_def]
  split
  · next cs heq =>
    cases word with
    | nil => rcases hends '"' (by rw [← List.nil_append rest, heq]; rfl) with h | h <;> cases h
    | cons c word => exact absurd (List.cons.inj heq).1 (hplain c List.mem_cons_self).2.2
  · rw [htake, hdrop, hword]
    rfl

theorem plain_numeral {word : List Char} {letter : Char} (hword : ∀ c ∈ word, Influxql.isNumeral c)
    (hletter : letter = 'i' ∨ letter = 'u') : ∀ c ∈ word ++ [letter], c ≠ ',' ∧ c ≠ ' ' ∧ c ≠ '"' := by
  intro c hc
  rcases List.mem_append.mp hc with hc | hc
  · have hnumeral := hword c hc
    refine ⟨?_, ?_, ?_⟩ <;> rintro rfl <;> exact absurd hnumeral (by decide)
  · rw [List.mem_singleton.mp hc]
    rcases hletter with rfl | rfl <;> decide

/-- A value is read as it is written. -/
theorem readValue_text {v : FieldValue} {x : Value} (h : v.value = some x) (hends : Ends rest) :
    readValue (x.text ++ rest) = some (x, rest) := by
  cases v with
  | string s =>
    cases h
    show (readQuoted (escape isQuoted s.toList ++ ['"'] ++ rest)).map _ = _
    rw [List.append_assoc, List.singleton_append, readQuoted_escape, Option.map_some, String.ofList_toList]
  | bool b =>
    cases h
    refine readValue_word (readWord_boolean b) hends ?_
    cases b <;> simp [Value.text]
  | int n =>
    cases h
    exact readValue_word (readWord_integer n) hends (plain_numeral (Influxql.isNumeral_of_mem_repr n) (.inl rfl))
  | uint n =>
    cases h
    refine readValue_word (readWord_unsigned n) hends (plain_numeral (fun c hc => ?_) (.inr rfl))
    simp [Influxql.isNumeral, Float64.isDigit_of_mem_toDigits c hc]
  | float | other => cases h

theorem readField_text {f : String × Value} {v : FieldValue} (hk : Plain f.1) (hkline : '\n' ∉ f.1.toList)
    (hv : v.value = some f.2) (hends : Ends rest) : readField (fieldText f ++ rest) = some (f, rest) := by
  obtain ⟨d, ds, hd⟩ := hk.cons
  have hkey := readText_plain (f.2.text ++ rest) hk hkline (show keySpecial '=' from rfl)
  rw [readField, fieldText, List.append_assoc, List.cons_append, hkey, hd]
  show (readValue (f.2.text ++ rest)).map (fun r => ((String.ofList (d :: ds), r.1), r.2)) = _
  rw [readValue_text hv hends, ← hd, String.ofList_toList]
  rfl

/-- The fields of a line, in front of its time or its end. -/
theorem readFields_text (hrest : ∀ c ∈ rest.head?, c = ' ') : ∀ {n : ℕ} {fields : List (String × Value)}, fields ≠ [] →
    fields.length ≤ n → (∀ f ∈ fields, Plain f.1 ∧ '\n' ∉ f.1.toList ∧ ∃ v : FieldValue, v.value = some f.2) →
    readFields n ([','].intercalate (fields.map fieldText) ++ rest) = some (fields, rest)
  | 0, f :: fields, _, hn, _ => absurd hn (by simp)
  | n + 1, [f], _, _, h => by
    obtain ⟨hk, hkline, v, hv⟩ := h f List.mem_cons_self
    rw [List.map_singleton, List.intercalate_singleton, readFields, readField_text hk hkline hv fun c hc => .inr (hrest c hc)]
    cases rest with
    | nil => rfl
    | cons c rest =>
      obtain rfl := hrest c rfl
      rfl
  | n + 1, f :: g :: fields, _, hn, h => by
    obtain ⟨hk, hkline, v, hv⟩ := h f List.mem_cons_self
    have hends : Ends (',' :: ([','].intercalate ((g :: fields).map fieldText) ++ rest)) := by
      rintro c ⟨⟩
      exact .inl rfl
    rw [List.map_cons, List.map_cons, List.intercalate_cons_cons, ← List.map_cons, List.append_assoc, List.append_assoc,
      readFields, List.singleton_append, readField_text hk hkline hv hends]
    show (readFields n ([','].intercalate ((g :: fields).map fieldText) ++ rest)).map (fun r => (f :: r.1, r.2)) = _
    rw [readFields_text hrest (List.cons_ne_nil g fields) (Nat.le_of_succ_le_succ hn)
      fun x hx => h x (List.mem_cons_of_mem f hx)]
    rfl

theorem length_le_intercalate : ∀ texts : List (List Char), (∀ t ∈ texts, t ≠ []) →
    texts.length ≤ ([','].intercalate texts).length
  | [], _ => Nat.zero_le _
  | [t], h => by
    rw [List.intercalate_singleton]
    exact List.length_pos_iff.mpr (h t List.mem_cons_self)
  | t :: u :: texts, h => by
    have hrest := length_le_intercalate (u :: texts) fun x hx => h x (List.mem_cons_of_mem t hx)
    rw [List.intercalate_cons_cons]
    simp only [List.length_append, List.length_cons] at *
    omega

theorem readTime_text {time : ℤ} (h : time ≠ 0) : readTime (timeText time) = some (some time) := by
  rw [timeText, if_neg h]
  show (Marshal.integer (String.ofList (Int.repr time).toList)).map some = _
  rw [String.ofList_toList, Marshal.integer_repr]
  rfl

theorem readRest_text {m : String} {tags : List (String × String)} {fields : List (String × Value)} {time : ℤ}
    (hne : fields ≠ []) (htime : time ≠ 0)
    (h : ∀ f ∈ fields, Plain f.1 ∧ '\n' ∉ f.1.toList ∧ ∃ v : FieldValue, v.value = some f.2) :
    readRest m tags ([','].intercalate (fields.map fieldText) ++ timeText time) = some ⟨m, tags, fields, some time⟩ := by
  have hrest : ∀ c ∈ (timeText time).head?, c = ' ' := by
    rw [timeText, if_neg htime]
    rintro c ⟨⟩
    rfl
  have hlen : fields.length ≤ ([','].intercalate (fields.map fieldText) ++ timeText time).length := by
    have hle := length_le_intercalate (fields.map fieldText) fun t ht => by
      obtain ⟨f, -, rfl⟩ := List.mem_map.mp ht
      simp [fieldText]
    rw [List.length_map] at hle
    rw [List.length_append]
    exact hle.trans (Nat.le_add_right _ _)
  rw [readRest, readFields_text hrest hne hlen h]
  show (readTime (timeText time)).bind _ = _
  rw [readTime_text htime]
  rfl

/-- A line is read as what it is the text of. -/
theorem readLine_text {line m : String} {tags : List (String × String)} {fields : List (String × Value)} {time : ℤ}
    (hline : line.toList = lineText m tags fields time) (hm : m ≠ "") (hcomment : m.toList.head? ≠ some '#')
    (hlast : m.toList.getLast? ≠ some '\\') (hmline : '\n' ∉ m.toList) (hne : fields ≠ []) (htime : time ≠ 0)
    (htags : ∀ t ∈ tags, Plain t.1 ∧ Plain t.2 ∧ '\n' ∉ t.1.toList ∧ '\n' ∉ t.2.toList)
    (hfields : ∀ f ∈ fields, Plain f.1 ∧ '\n' ∉ f.1.toList ∧ ∃ v : FieldValue, v.value = some f.2) :
    readLine line = some ⟨m, tags, fields, some time⟩ := by
  obtain ⟨d, ds, hd⟩ := List.exists_cons_of_ne_nil fun hnil => hm (String.toList_eq_nil_iff.mp hnil)
  have hhead : line.toList.head? ≠ some '#' := by
    rw [hline, lineText, hd, escape_cons]
    rw [hd] at hcomment
    split_ifs
    · exact fun h => absurd (Option.some.inj h) (by decide)
    · exact hcomment
  have hmeasurement : ∀ c rest, escapeMeasurement c = true →
      readText escapeMeasurement (escape escapeMeasurement m.toList ++ c :: rest) = (m.toList, c :: rest) := fun c rest hc =>
    readText_escape rfl (fun _ _ => rfl) hmline hlast hc
  rw [readLine, if_neg hhead, hline, lineText]
  by_cases hnil : tags = []
  · rw [tagsText, if_pos hnil, List.nil_append, hmeasurement ' ' _ rfl, hd]
    show readRest (String.ofList (d :: ds)) [] _ = _
    rw [readRest_text hne htime hfields, ← hd, String.ofList_toList, hnil]
  · rw [tagsText, if_neg hnil, List.cons_append, hmeasurement ',' _ rfl, hd]
    have hlen := length_le_intercalate (tags.map tagText) fun t ht => by
      obtain ⟨u, -, rfl⟩ := List.mem_map.mp ht
      simp [tagText]
    rw [List.length_map] at hlen
    show (readTags _ ([','].intercalate (tags.map tagText) ++ ' ' :: _)).bind
      (fun r => readRest (String.ofList (d :: ds)) r.1 r.2) = _
    rw [readTags_text hnil (hlen.trans (by rw [List.length_append]; exact Nat.le_add_right _ _)) htags]
    show readRest (String.ofList (d :: ds)) tags _ = _
    rw [readRest_text hne htime hfields, ← hd, String.ofList_toList]

end Reading

end LineProtocol
end Chronograf
