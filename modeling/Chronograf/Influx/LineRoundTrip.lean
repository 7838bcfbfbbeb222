/-
# The round trip of the line protocol

A line is read back as its point if and only if no more backslashes were
written than its reader takes, and none before a separator that ends a text. A
reader never reads a text that ends with a backslash there; and it takes one
backslash for each of its own and each special character, while the writer also
escapes the quotes of keys and tag values.

Key definitions: `Took`, `Sound`, `annotationPoint`.
Key theorems: `readLine_sound`, `count_lineText`, `line_protocol_iff`, `annotation_readsBack_iff`.
-/
import Chronograf.Influx.Annotations
import Chronograf.Influx.LineProtocol

namespace Chronograf
namespace LineProtocol

open Escapes

/-! ### What a line was read from -/

/-- How many backslashes a key was read from. -/
def weight (s : String) : ℕ := s.toList.countP fun c => c = '\\' || keySpecial c

def tagWeight (t : String × String) : ℕ := weight t.1 + weight t.2

def fieldWeight (f : String × Value) : ℕ := weight f.1 + f.2.text.count '\\'

/-- The rest of a text after a part that had at most so many backslashes. -/
structure Took (cs rest : List Char) (n : ℕ) : Prop where
  suffix : rest <:+ cs
  count : cs.count '\\' ≤ n + rest.count '\\'

theorem Took.trans {cs mid rest : List Char} {m n : ℕ} (h : Took cs mid m) (h' : Took mid rest n) : Took cs rest (m + n) :=
  ⟨h'.suffix.trans h.suffix, by have := h.count; have := h'.count; omega⟩

theorem Took.char {c : Char} (hc : c ≠ '\\') (cs : List Char) : Took (c :: cs) cs 0 :=
  ⟨List.suffix_cons c cs, by rw [List.count_cons_of_ne hc, Nat.zero_add]⟩

theorem took_readText (special : Char → Bool) (h : special '\\' = false) (cs : List Char) :
    Took cs (readText special cs).2 ((readText special cs).1.countP fun c => c = '\\' || special c) :=
  ⟨readText_suffix cs, (count_readText h cs).le⟩

/-- A key or a tag value that was read. -/
structure Unescaped (s : String) : Prop where
  ne : s ≠ ""
  last : s.toList.getLast? ≠ some '\\'

section Sound

variable {cs rest : List Char} {n : ℕ}

theorem took_key {k : List Char} (h : readText keySpecial cs = (k, rest)) : Took cs rest (weight (String.ofList k)) := by
  have htook := took_readText keySpecial rfl cs
  rw [h] at htook
  rwa [weight, String.toList_ofList]

/-- What was read in front of a separator. -/
theorem unescaped_text {special : Char → Bool} {k : List Char} {c : Char} (hbackslash : special '\\' = false)
    (hline : special '\n' = false) (hne : k ≠ []) (h : readText special cs = (k, c :: rest)) (hc : special c) :
    Unescaped (String.ofList k) := by
  refine ⟨fun hempty => hne ?_, ?_⟩
  · rw [← String.toList_ofList (l := k), hempty]
    rfl
  · rw [String.toList_ofList]
    have hlast : (readText special cs).1.getLast? ≠ some '\\' := getLast_readText hbackslash hline hc (by rw [h])
    rwa [h] at hlast

theorem readTag_took {t : String × String} (h : readTag cs = some (t, rest)) : Took cs rest (tagWeight t) ∧ Unescaped t.1 ∧
    ∀ c rest', rest = c :: rest' → keySpecial c → Unescaped t.2 := by
  unfold readTag at h
  split at h
  · cases h
  · next k cs' hne hkey =>
    split at h
    · cases h
    · next v rest' hne' hvalue =>
      cases h
      refine ⟨?_, unescaped_text rfl rfl hne hkey rfl, ?_⟩
      · have hboth := (took_key hkey).trans ((Took.char (by decide) cs').trans (took_key hvalue))
        rwa [Nat.zero_add] at hboth
      · rintro c rest'' rfl hc
        exact unescaped_text rfl rfl hne' hvalue hc
  · cases h

theorem readTags_took : ∀ {n : ℕ} {cs rest : List Char} {tags : List (String × String)}, readTags n cs = some (tags, rest) →
    Took cs rest (tags.map tagWeight).sum ∧ ∀ t ∈ tags, Unescaped t.1 ∧ Unescaped t.2
  | 0, cs, rest, tags, h => by cases h
  | n + 1, cs, rest, tags, h => by
    unfold readTags at h
    split at h
    · next t rest' htag =>
      obtain ⟨r, hr, heq⟩ := Option.map_eq_some_iff.mp h
      cases heq
      obtain ⟨htook, hkey, hvalue⟩ := readTag_took htag
      obtain ⟨hrest, hall⟩ := readTags_took (show readTags n rest' = some (r.1, r.2) from hr)
      refine ⟨?_, List.forall_mem_cons.mpr ⟨⟨hkey, hvalue ',' rest' rfl rfl⟩, hall⟩⟩
      have hboth := htook.trans ((Took.char (by decide) rest').trans hrest)
      rwa [Nat.zero_add] at hboth
    · next t rest' htag =>
      cases h
      obtain ⟨htook, hkey, hvalue⟩ := readTag_took htag
      refine ⟨?_, List.forall_mem_cons.mpr ⟨⟨hkey, hvalue ' ' rest rfl rfl⟩, fun _ h => absurd h List.not_mem_nil⟩⟩
      have hboth := htook.trans (Took.char (by decide) rest)
      simpa using hboth
    · cases h

theorem count_of_wholeDigits {ds : List Char} {m : ℕ} (h : Marshal.wholeDigits ds = some m) : ds.count '\\' = 0 := by
  unfold Marshal.wholeDigits at h
  split_ifs at h with hdigits
  refine List.count_eq_zero.mpr fun hmem => ?_
  exact absurd (List.all_eq_true.mp hdigits.2 _ hmem) (by decide)

/-- Digits and a sign have no backslash. -/
theorem count_of_integer {ds : List Char} {i : ℤ} (h : Marshal.integer (String.ofList ds) = some i) : ds.count '\\' = 0 := by
  unfold Marshal.integer at h
  rw [String.toList_ofList] at h
  split at h
  · next cs =>
    cases hm : Marshal.wholeDigits cs with
    | none =>
      rw [hm] at h
      cases h
    | some m => rw [List.count_cons_of_ne (by decide), count_of_wholeDigits hm]
  · cases hm : Marshal.wholeDigits ds with
    | none =>
      rw [hm] at h
      cases h
    | some m => exact count_of_wholeDigits hm

theorem count_concat {cs : List Char} {c : Char} (hc : c ≠ '\\') (h : cs.getLast? = some c) :
    cs.count '\\' = cs.dropLast.count '\\' := by
  conv_lhs => rw [← List.dropLast_append_getLast? c h]
  rw [List.count_append, List.count_singleton]
  simp [hc]

theorem readWord_took {w : List Char} {v : Value} (h : readWord w = some v) : w.count '\\' ≤ v.text.count '\\' := by
  have hwords : ∀ x ∈ trueWords ++ falseWords, x.count '\\' = 0 := by decide
  unfold readWord at h
  split_ifs at h with htrue hfalse hi hu hfloat
  · rw [hwords w (List.mem_append_left _ htrue)]
    exact Nat.zero_le _
  · rw [hwords w (List.mem_append_right _ hfalse)]
    exact Nat.zero_le _
  · obtain ⟨i, hint, -⟩ := Option.map_eq_some_iff.mp h
    rw [count_concat (by decide) hi, count_of_integer hint]
    exact Nat.zero_le _
  · obtain ⟨m, hm, -⟩ := Option.map_eq_some_iff.mp h
    rw [count_concat (by decide) hu, count_of_wholeDigits hm]
    exact Nat.zero_le _
  · cases h
    rw [Value.text, String.toList_ofList]

theorem readValue_took {v : Value} (h : readValue cs = some (v, rest)) : Took cs rest (v.text.count '\\') := by
  unfold readValue at h
  split at h
  · next cs =>
    obtain ⟨r, hr, heq⟩ := Option.map_eq_some_iff.mp h
    cases heq
    have hquoted : Took cs r.2 ((escape isQuoted r.1).count '\\') := ⟨readQuoted_suffix hr, count_readQuoted hr⟩
    have hboth := (Took.char (c := '"') (by decide) cs).trans hquoted
    rw [Nat.zero_add] at hboth
    have htext : (Value.string (String.ofList r.1)).text.count '\\' = (escape isQuoted r.1).count '\\' := by
      rw [Value.text, String.toList_ofList, List.count_append, List.count_cons_of_ne (by decide)]
      rfl
    rwa [htext]
  · obtain ⟨v', hv, heq⟩ := Option.map_eq_some_iff.mp h
    cases heq
    refine ⟨List.dropWhile_suffix _, ?_⟩
    conv_lhs => rw [← List.takeWhile_append_dropWhile (p := fun c => decide (c ≠ ',' ∧ c ≠ ' ')) (l := cs)]
    rw [List.count_append]
    exact Nat.add_le_add_right (readWord_took hv) _

theorem readField_took {f : String × Value} (h : readField cs = some (f, rest)) :
    Took cs rest (fieldWeight f) ∧ Unescaped f.1 := by
  unfold readField at h
  split at h
  · cases h
  · next k cs' hne hkey =>
    obtain ⟨r, hr, heq⟩ := Option.map_eq_some_iff.mp h
    cases heq
    refine ⟨?_, unescaped_text rfl rfl hne hkey rfl⟩
    have hvalue := readValue_took (show readValue cs' = some (r.1, r.2) from hr)
    have hboth := (took_key hkey).trans ((Took.char (by decide) cs').trans hvalue)
    rwa [Nat.zero_add] at hboth
  · cases h

theorem readFields_took : ∀ {n : ℕ} {cs rest : List Char} {fields : List (String × Value)},
    readFields n cs = some (fields, rest) →
      Took cs rest (fields.map fieldWeight).sum ∧ ∀ f ∈ fields, Unescaped f.1
  | 0, cs, rest, fields, h => by cases h
  | n + 1, cs, rest, fields, h => by
    unfold readFields at h
    split at h
    · next f rest' hfield =>
      obtain ⟨r, hr, heq⟩ := Option.map_eq_some_iff.mp h
      cases heq
      obtain ⟨htook, hkey⟩ := readField_took hfield
      obtain ⟨hrest, hall⟩ := readFields_took (show readFields n rest' = some (r.1, r.2) from hr)
      refine ⟨?_, List.forall_mem_cons.mpr ⟨hkey, hall⟩⟩
      have hboth := htook.trans ((Took.char (by decide) rest').trans hrest)
      rwa [Nat.zero_add] at hboth
    · next f rest' hshape hfield =>
      cases h
      obtain ⟨htook, hkey⟩ := readField_took hfield
      refine ⟨by simpa using htook, List.forall_mem_cons.mpr ⟨hkey, fun _ h => absurd h List.not_mem_nil⟩⟩
    · cases h

theorem getLast_of_wholeDigits {ds : List Char} {m : ℕ} (h : Marshal.wholeDigits ds = some m) :
    ∃ c, ds.getLast? = some c ∧ c.isDigit := by
  unfold Marshal.wholeDigits at h
  split_ifs at h with hdigits
  exact ⟨_, List.getLast?_eq_some_getLast hdigits.1, List.all_eq_true.mp hdigits.2 _ (List.getLast_mem hdigits.1)⟩

theorem getLast_of_integer {ds : List Char} {i : ℤ} (h : Marshal.integer (String.ofList ds) = some i) :
    ∃ c, ds.getLast? = some c ∧ c.isDigit := by
  unfold Marshal.integer at h
  rw [String.toList_ofList] at h
  split at h
  · next cs =>
    cases hm : Marshal.wholeDigits cs with
    | none =>
      rw [hm] at h
      cases h
    | some m =>
      obtain ⟨c, hc, hdigit⟩ := getLast_of_wholeDigits hm
      exact ⟨c, by rw [List.getLast?_cons, hc]; rfl, hdigit⟩
  · cases hm : Marshal.wholeDigits ds with
    | none =>
      rw [hm] at h
      cases h
    | some m => exact getLast_of_wholeDigits hm

/-- A time ends with a digit. -/
theorem readTime_took {time : Option ℤ} (h : readTime cs = some time) :
    cs.count '\\' = 0 ∧ ∀ t, time = some t → ∃ c, cs.getLast? = some c ∧ c.isDigit := by
  unfold readTime at h
  split at h
  · cases h
    exact ⟨rfl, nofun⟩
  · next ds =>
    obtain ⟨t, ht, rfl⟩ := Option.map_eq_some_iff.mp h
    obtain ⟨c, hc, hdigit⟩ := getLast_of_integer ht
    refine ⟨by rw [List.count_cons_of_ne (by decide), count_of_integer ht], fun _ _ => ⟨c, ?_, hdigit⟩⟩
    rw [List.getLast?_cons, hc]
    rfl
  · cases h

/-- The end of a text is that of its rest. -/
theorem getLast_of_suffix {c : Char} (h : rest <:+ cs) (hc : rest.getLast? = some c) : cs.getLast? = some c := by
  obtain ⟨t, rfl⟩ := h
  rw [List.getLast?_append, hc]
  rfl

/-- What a line was read from: keys that end before a separator, as many backslashes as they needed, and a time that ends
with a digit. -/
structure Sound (r : Read) (cs : List Char) (n : ℕ) : Prop where
  keys : ∀ f ∈ r.fields, Unescaped f.1
  count : cs.count '\\' ≤ n + (r.fields.map fieldWeight).sum
  time : ∀ t, r.time = some t → ∃ c, cs.getLast? = some c ∧ c.isDigit

theorem readRest_sound {m : String} {tags : List (String × String)} {r : Read} (h : readRest m tags cs = some r) :
    r.measurement = m ∧ r.tags = tags ∧ Sound r cs 0 := by
  unfold readRest at h
  rw [Option.bind_eq_bind, Option.bind_eq_some_iff] at h
  obtain ⟨⟨fields, rest⟩, hfields, h⟩ := h
  rw [Option.bind_eq_bind, Option.bind_eq_some_iff] at h
  obtain ⟨time, htime, h⟩ := h
  cases h
  obtain ⟨htook, hkeys⟩ := readFields_took hfields
  obtain ⟨hcount, hlast⟩ := readTime_took htime
  refine ⟨rfl, rfl, hkeys, ?_, fun t ht => ?_⟩
  · have hle := htook.count
    dsimp only
    omega
  · obtain ⟨c, hc, hdigit⟩ := hlast t ht
    exact ⟨c, getLast_of_suffix htook.suffix hc, hdigit⟩

theorem Sound.before {r : Read} {k : ℕ} (h : Sound r rest k) (htook : Took cs rest n) : Sound r cs (n + k) := by
  refine ⟨h.keys, ?_, fun t ht => ?_⟩
  · have hle := htook.count
    have hrest := h.count
    omega
  · obtain ⟨c, hc, hdigit⟩ := h.time t ht
    exact ⟨c, getLast_of_suffix htook.suffix hc, hdigit⟩

def measurementWeight (m : String) : ℕ := m.toList.countP fun c => c = '\\' || escapeMeasurement c

theorem readLine_sound {line : String} {r : Read} (h : readLine line = some r) :
    line.toList.head? ≠ some '#' ∧ Unescaped r.measurement ∧ (∀ t ∈ r.tags, Unescaped t.1 ∧ Unescaped t.2) ∧
      Sound r line.toList (measurementWeight r.measurement + (r.tags.map tagWeight).sum) := by
  have hmeasurement : ∀ {m : List Char} {c : Char} {rest : List Char}, m ≠ [] →
      readText escapeMeasurement line.toList = (m, c :: rest) → escapeMeasurement c = true →
      Unescaped (String.ofList m) ∧ Took line.toList (c :: rest) (measurementWeight (String.ofList m)) := by
    intro m c rest hne hread hc
    have htook := took_readText escapeMeasurement rfl line.toList
    rw [hread] at htook
    exact ⟨unescaped_text rfl rfl hne hread hc, by rwa [measurementWeight, String.toList_ofList]⟩
  unfold readLine at h
  split_ifs at h with hcomment
  refine ⟨hcomment, ?_⟩
  split at h
  · cases h
  · next m cs hne hread =>
    rw [Option.bind_eq_bind, Option.bind_eq_some_iff] at h
    obtain ⟨⟨tags, rest⟩, htags, h⟩ := h
    obtain ⟨hm, rfl, hsound⟩ := readRest_sound h
    obtain ⟨htook, hall⟩ := readTags_took htags
    obtain ⟨hunescaped, htook'⟩ := hmeasurement hne hread rfl
    rw [hm]
    refine ⟨hunescaped, hall, ?_⟩
    have hboth := htook'.trans ((Took.char (by decide) cs).trans htook)
    rw [Nat.zero_add] at hboth
    exact hsound.before hboth
  · next m cs hne hread =>
    obtain ⟨hm, htags, hsound⟩ := readRest_sound h
    obtain ⟨hunescaped, htook'⟩ := hmeasurement hne hread rfl
    rw [hm, htags]
    refine ⟨hunescaped, fun _ ht => absurd ht List.not_mem_nil, ?_⟩
    exact hsound.before (htook'.trans (Took.char (by decide) cs))
  · cases h

end Sound

/-! ### The backslashes of a line -/

section Written

/-- Quotes are escaped where no reader expects it. -/
theorem count_key (s : String) : (escape escapeKeys s.toList).count '\\' = weight s + s.toList.count '"' := by
  rw [count_escape rfl, weight]
  induction s.toList with
  | nil => rfl
  | cons c cs ih =>
    rw [List.countP_cons, List.countP_cons, List.count_cons, ih]
    by_cases hquote : c = '"'
    · subst hquote
      simp [escapeKeys, keySpecial]
      omega
    · have hsame : escapeKeys c = keySpecial c := by
        simp [escapeKeys, keySpecial, hquote]
        grind
      simp [hsame, hquote]
      omega

theorem count_intercalate : ∀ texts : List (List Char),
    ([','].intercalate texts).count '\\' = (texts.map (List.count '\\')).sum
  | [] => rfl
  | [t] => by simp
  | t :: u :: texts => by
    rw [List.intercalate_cons_cons, List.count_append, List.count_append, count_intercalate (u :: texts), List.map_cons,
      List.sum_cons]
    simp

def tagQuotes (t : String × String) : ℕ := t.1.toList.count '"' + t.2.toList.count '"'

def keyQuotes (f : String × Value) : ℕ := f.1.toList.count '"'

theorem count_tagText (t : String × String) : (tagText t).count '\\' = tagWeight t + tagQuotes t := by
  rw [tagText, List.count_append, List.count_cons_of_ne (by decide), count_key, count_key, tagWeight, tagQuotes]
  omega

theorem count_fieldText (f : String × Value) : (fieldText f).count '\\' = fieldWeight f + keyQuotes f := by
  rw [fieldText, List.count_append, List.count_cons_of_ne (by decide), count_key, fieldWeight, keyQuotes]
  omega

theorem count_tagsText (tags : List (String × String)) :
    (tagsText tags).count '\\' = (tags.map tagWeight).sum + (tags.map tagQuotes).sum := by
  have htags : (tags.map tagText).map (List.count '\\') = tags.map fun t => tagWeight t + tagQuotes t := by
    rw [List.map_map]
    exact List.map_congr_left fun t _ => count_tagText t
  rw [← List.sum_map_add, ← htags, ← count_intercalate, tagsText]
  split_ifs with hnil
  · rw [hnil]
    rfl
  · rw [List.count_cons_of_ne (by decide)]

theorem count_timeText (time : ℤ) : (timeText time).count '\\' = 0 := by
  unfold timeText
  split_ifs
  · rfl
  · rw [List.count_cons_of_ne (by decide), List.count_eq_zero]
    exact fun h => absurd (Influxql.isNumeral_of_mem_repr time _ h) (by decide)

/-- A line has the backslashes that its reader needs, and one for each quote of a key or a tag value. -/
theorem count_lineText (m : String) (tags : List (String × String)) (fields : List (String × Value)) (time : ℤ) :
    (lineText m tags fields time).count '\\' = measurementWeight m + (tags.map tagWeight).sum + (fields.map fieldWeight).sum +
      ((tags.map tagQuotes).sum + (fields.map keyQuotes).sum) := by
  have hfields : (fields.map fieldText).map (List.count '\\') = fields.map fun f => fieldWeight f + keyQuotes f := by
    rw [List.map_map]
    exact List.map_congr_left fun f _ => count_fieldText f
  rw [lineText, List.count_append, List.count_append, List.count_cons_of_ne (by decide), List.count_append, count_escape rfl,
    count_tagsText, count_intercalate, hfields, List.sum_map_add, count_timeText, measurementWeight]
  omega

theorem getLast_intercalate : ∀ {texts : List (List Char)}, texts ≠ [] →
    (∀ t ∈ texts, ∃ c, t.getLast? = some c ∧ ¬ c.isDigit) →
    ∃ c, ([','].intercalate texts).getLast? = some c ∧ ¬ c.isDigit
  | [], hne, _ => absurd rfl hne
  | [t], _, h => by
    rw [List.intercalate_singleton]
    exact h t List.mem_cons_self
  | t :: u :: texts, _, h => by
    obtain ⟨c, hc, hdigit⟩ := getLast_intercalate (List.cons_ne_nil u texts) fun x hx => h x (List.mem_cons_of_mem t hx)
    refine ⟨c, ?_, hdigit⟩
    rw [List.intercalate_cons_cons]
    exact getLast_of_suffix (List.suffix_append _ _) hc

theorem getLast_text {v : FieldValue} {x : Value} (h : v.value = some x) : ∃ c, x.text.getLast? = some c ∧ ¬ c.isDigit := by
  cases v with
  | int n =>
    cases h
    exact ⟨'i', by simp [Value.text], by decide⟩
  | uint n =>
    cases h
    exact ⟨'u', by simp [Value.text], by decide⟩
  | string s =>
    cases h
    exact ⟨'"', List.getLast?_concat, by decide⟩
  | bool b =>
    cases h
    exact ⟨'e', by cases b <;> rfl, by decide⟩
  | float | other => cases h

/-- Without a time no line ends with a digit. -/
theorem getLast_lineText {m : String} {tags : List (String × String)} {fields : List (String × Value)} (hne : fields ≠ [])
    (hvalues : ∀ f ∈ fields, ∃ v : FieldValue, v.value = some f.2) :
    ∃ c, (lineText m tags fields 0).getLast? = some c ∧ ¬ c.isDigit := by
  have hfields : ∃ c, ([','].intercalate (fields.map fieldText)).getLast? = some c ∧ ¬ c.isDigit := by
    refine getLast_intercalate (by simpa using hne) fun t ht => ?_
    obtain ⟨f, hf, rfl⟩ := List.mem_map.mp ht
    obtain ⟨v, hv⟩ := hvalues f hf
    obtain ⟨c, hc, hdigit⟩ := getLast_text hv
    exact ⟨c, getLast_of_suffix ((List.suffix_cons '=' _).trans (List.suffix_append _ _)) hc, hdigit⟩
  obtain ⟨c, hc, hdigit⟩ := hfields
  refine ⟨c, ?_, hdigit⟩
  rw [lineText, timeText, if_pos rfl, List.append_nil]
  exact getLast_of_suffix (((List.suffix_cons ' ' _).trans (List.suffix_append _ _)).trans (List.suffix_append _ _)) hc

end Written

/-! ### Line breaks -/

section Breaks

theorem newline_escape {special : Char → Bool} {s : List Char} : '\n' ∈ escape special s ↔ '\n' ∈ s :=
  ⟨fun h => (of_mem_escape h).resolve_right (by decide), mem_escape⟩

theorem newline_intercalate : ∀ {texts : List (List Char)}, '\n' ∈ [','].intercalate texts ↔ ∃ t ∈ texts, '\n' ∈ t
  | [] => by simp
  | [t] => by simp
  | t :: u :: texts => by
    rw [List.intercalate_cons_cons, List.mem_append, List.mem_append, newline_intercalate ]
    simp

theorem newline_tagText (t : String × String) : '\n' ∈ tagText t ↔ '\n' ∈ t.1.toList ∨ '\n' ∈ t.2.toList := by
  rw [tagText, List.mem_append, List.mem_cons, newline_escape, newline_escape]
  simp

theorem newline_fieldText (f : String × Value) : '\n' ∈ fieldText f ↔ '\n' ∈ f.1.toList ∨ '\n' ∈ f.2.text := by
  rw [fieldText, List.mem_append, List.mem_cons, newline_escape]
  simp

theorem newline_tagsText {tags : List (String × String)} : '\n' ∈ tagsText tags ↔ ∃ t ∈ tags, '\n' ∈ tagText t := by
  unfold tagsText
  split_ifs with hnil
  · simp [hnil]
  · rw [List.mem_cons, newline_intercalate]
    simp

theorem newline_timeText (time : ℤ) : '\n' ∉ timeText time := by
  unfold timeText
  split_ifs
  · exact List.not_mem_nil
  · rw [List.mem_cons, not_or]
    exact ⟨by decide, fun h => absurd (Influxql.isNumeral_of_mem_repr time _ h) (by decide)⟩

/-- A line has a line break only if what it is written from has one. -/
theorem oneLine_iff {m : String} {tags : List (String × String)} {fields : List (String × Value)} {time : ℤ} :
    '\n' ∉ lineText m tags fields time ↔ '\n' ∉ m.toList ∧ (∀ t ∈ tags, '\n' ∉ t.1.toList ∧ '\n' ∉ t.2.toList) ∧
      ∀ f ∈ fields, '\n' ∉ f.1.toList ∧ '\n' ∉ f.2.text := by
  have hfields : '\n' ∈ [','].intercalate (fields.map fieldText) ↔ ∃ f ∈ fields, '\n' ∈ fieldText f := by
    rw [newline_intercalate]
    simp
  rw [lineText, List.mem_append, List.mem_append, List.mem_cons, List.mem_append, newline_escape, newline_tagsText, hfields,
    or_iff_left (newline_timeText time), or_iff_right (show '\n' ≠ ' ' by decide)]
  simp only [newline_tagText, newline_fieldText]
  push Not
  rfl

theorem newline_text {v : FieldValue} {x : Value} (h : v.value = some x) : '\n' ∉ x.text ↔ ∀ s, v = .string s → '\n' ∉ s.toList := by
  have hnumeral : ∀ {word : List Char} {letter : Char}, (∀ c ∈ word, Influxql.isNumeral c) → letter ≠ '\n' →
      '\n' ∉ word ++ [letter] := by
    intro word letter hword hletter hmem
    rcases List.mem_append.mp hmem with hmem | hmem
    · exact absurd (hword _ hmem) (by decide)
    · exact hletter (List.mem_singleton.mp hmem).symm
  cases v with
  | int n =>
    cases h
    exact iff_of_true (hnumeral (Influxql.isNumeral_of_mem_repr n) (by decide)) fun s h => by cases h
  | uint n =>
    cases h
    refine iff_of_true (hnumeral (fun c hc => ?_) (by decide)) fun s h => by cases h
    simp [Influxql.isNumeral, Float64.isDigit_of_mem_toDigits c hc]
  | bool b =>
    cases h
    exact iff_of_true (by cases b <;> decide) fun s h => by cases h
  | string s =>
    cases h
    rw [Value.text, List.mem_append, List.mem_cons, newline_escape]
    simp
  | float | other => cases h

end Breaks

/-! ### When a line is read back -/

section Points

variable {p : Point}

theorem mem_values {f : String × Value} : f ∈ p.values ↔ ∃ v, (f.1, v) ∈ p.fields ∧ v.value = some f.2 := by
  rw [Point.values, List.mem_filterMap]
  constructor
  · rintro ⟨g, hg, hvalue⟩
    obtain ⟨x, hx, rfl⟩ := Option.map_eq_some_iff.mp hvalue
    exact ⟨g.2, hg, hx⟩
  · rintro ⟨v, hv, hx⟩
    exact ⟨_, hv, by rw [hx]; rfl⟩

theorem Point.Exact.map_values (h : p.Exact) :
    p.values.map (fun f => (f.1, some f.2)) = p.fields.map fun f => (f.1, f.2.value) := by
  have hall := h.values
  rw [Point.values]
  generalize p.fields = fields at hall ⊢
  induction fields with
  | nil => rfl
  | cons f fields ih =>
    obtain ⟨x, hx⟩ := Option.isSome_iff_exists.mp (hall f List.mem_cons_self)
    rw [List.filterMap_cons_some (by rw [hx]; rfl), List.map_cons, List.map_cons,
      ih fun g hg => hall g (List.mem_cons_of_mem f hg), hx]

theorem Point.Exact.values_ne_nil (h : p.Exact) : p.values ≠ [] := by
  intro hnil
  have hmap := h.map_values
  rw [hnil] at hmap
  exact h.fields (List.map_eq_nil_iff.mp hmap.symm)

/-- What is the same has the fields in another order. -/
theorem Point.Same.perm {r : Read} (h : p.Exact) (hsame : p.Same r) : r.fields.Perm p.values := by
  have hperm := hsame.fields
  rw [← h.map_values] at hperm
  refine (List.map_perm_map_iff fun f g hfg => ?_).mp hperm
  exact Prod.ext (Prod.mk.inj hfg).1 (Option.some.inj (Prod.mk.inj hfg).2)

/-- What a point is written from. -/
theorem Point.Writable.plain (h : p.Writable) {tags : List (String × String)} {fields : List (String × Value)}
    (htags : tags.Perm p.kept) (hfields : fields.Perm p.values) :
    (∀ t ∈ tags, Plain t.1 ∧ Plain t.2 ∧ '\n' ∉ t.1.toList ∧ '\n' ∉ t.2.toList) ∧
      ∀ f ∈ fields, Plain f.1 ∧ '\n' ∉ f.1.toList ∧ ∃ v : FieldValue, v.value = some f.2 := by
  obtain ⟨-, htagLines, hfieldLines⟩ := h.oneLine
  constructor
  · intro t ht
    have hkept := htags.mem_iff.mp ht
    obtain ⟨hk, hv⟩ := h.tags t hkept
    exact ⟨hk, hv, htagLines t hkept⟩
  · intro f hf
    obtain ⟨v, hv, hvalue⟩ := mem_values.mp (hfields.mem_iff.mp hf)
    exact ⟨h.keys _ hv, (hfieldLines _ hv).1, v, hvalue⟩

/-- A point that is writable is read back. -/
theorem Point.Writable.readsBack (h : p.Writable) (hexact : p.Exact) {line : String} (hline : toLineProtocol p = .ok line) :
    '\n' ∉ line.toList ∧ ∃ r, readLine line = some r ∧ p.Same r := by
  obtain ⟨line', tags, fields, hline', htags, hfields, htext⟩ := toLineProtocol_text hexact
  obtain rfl : line = line' := Except.ok.inj (hline.symm.trans hline')
  obtain ⟨hplainTags, hplainFields⟩ := h.plain htags hfields
  obtain ⟨hmeasurement, -, hfieldLines⟩ := h.oneLine
  have hne : fields ≠ [] := fun hnil => hexact.values_ne_nil (List.nil_perm.mp (hnil ▸ hfields))
  refine ⟨?_, _, readLine_text htext hexact.measurement h.comment h.last hmeasurement hne h.time hplainTags hplainFields, ?_⟩
  · rw [htext, oneLine_iff]
    refine ⟨hmeasurement, fun t ht => (hplainTags t ht).2.2, fun f hf => ?_⟩
    obtain ⟨v, hv, hvalue⟩ := mem_values.mp (hfields.mem_iff.mp hf)
    exact ⟨(hplainFields f hf).2.1, (newline_text hvalue).mpr (hfieldLines _ hv).2⟩
  · refine ⟨rfl, htags, ?_, rfl⟩
    rw [← hexact.map_values]
    exact hfields.map _

/-- A point that is read back is writable. -/
theorem Point.ReadsBack.writable (h : p.ReadsBack) (hexact : p.Exact) : p.Writable := by
  obtain ⟨line, hline, hone, r, hread, hsame⟩ := h
  obtain ⟨line', tags, fields, hline', htags, hfields, htext⟩ := toLineProtocol_text hexact
  obtain rfl : line = line' := Except.ok.inj (hline.symm.trans hline')
  obtain ⟨hcomment, hmeasurement, hreadTags, hsound⟩ := readLine_sound hread
  have hperm := hsame.perm hexact
  -- as many backslashes as were needed, so none for a quote
  have hquotes : (tags.map tagQuotes).sum + (fields.map keyQuotes).sum = 0 := by
    have hcount := hsound.count
    rw [htext, count_lineText, hsame.measurement, ((hsame.tags.trans htags.symm).map tagWeight).sum_eq,
      ((hperm.trans hfields.symm).map fieldWeight).sum_eq] at hcount
    omega
  rw [Nat.add_eq_zero_iff, List.sum_eq_zero_iff_forall_eq_nat, List.sum_eq_zero_iff_forall_eq_nat] at hquotes
  have hkeys : ∀ t ∈ p.kept, tagQuotes t = 0 :=
    fun t ht => hquotes.1 _ (List.mem_map_of_mem (htags.mem_iff.mpr ht))
  have hfieldKeys : ∀ f ∈ p.values, keyQuotes f = 0 :=
    fun f hf => hquotes.2 _ (List.mem_map_of_mem (hfields.mem_iff.mpr hf))
  have hplain : ∀ {s : String}, Unescaped s → s.toList.count '"' = 0 → Plain s :=
    fun hs hcount => ⟨hs.ne, List.count_eq_zero.mp hcount, hs.last⟩
  have hvalue : ∀ f ∈ p.fields, ∃ x, f.2.value = some x ∧ (f.1, x) ∈ p.values := by
    intro f hf
    obtain ⟨x, hx⟩ := Option.isSome_iff_exists.mp (hexact.values f hf)
    exact ⟨x, hx, mem_values.mpr ⟨f.2, hf, hx⟩⟩
  rw [htext, oneLine_iff] at hone
  obtain ⟨honeMeasurement, honeTags, honeFields⟩ := hone
  refine ⟨fun hzero => ?_, ?_, hsame.measurement ▸ hmeasurement.last, fun t ht => ?_, fun f hf => ?_, honeMeasurement,
    fun t ht => honeTags t (htags.mem_iff.mpr ht), fun f hf => ?_⟩
  · -- a time that is read ends with a digit
    obtain ⟨c, hc, hdigit⟩ := hsound.time p.time hsame.time
    have hend : ∃ d, (lineText p.measurement tags fields 0).getLast? = some d ∧ ¬ d.isDigit := getLast_lineText
      (fun hnil => hexact.values_ne_nil (List.nil_perm.mp (hnil ▸ hfields)))
      fun f hf => (mem_values.mp (hfields.mem_iff.mp hf)).imp fun v hv => hv.2
    obtain ⟨d, hd, hnone⟩ := hend
    rw [htext, hzero, hd] at hc
    exact hnone (Option.some.inj hc ▸ hdigit)
  · intro hhash
    refine hcomment ?_
    obtain ⟨ds, hds⟩ := List.head?_eq_some_iff.mp hhash
    rw [htext, lineText, hds]
    rfl
  · obtain ⟨hk, hv⟩ := hreadTags t (hsame.tags.mem_iff.mpr ht)
    have hzero := hkeys t ht
    rw [tagQuotes, Nat.add_eq_zero_iff] at hzero
    exact ⟨hplain hk hzero.1, hplain hv hzero.2⟩
  · obtain ⟨x, -, hx⟩ := hvalue f hf
    exact hplain (hsound.keys _ (hperm.mem_iff.mpr hx)) (hfieldKeys _ hx)
  · obtain ⟨x, hfx, hx⟩ := hvalue f hf
    obtain ⟨hkey, htextLine⟩ := honeFields _ (hfields.mem_iff.mpr hx)
    exact ⟨hkey, (newline_text hfx).mp htextLine⟩

/-- The same points, but for tags without a value. -/
structure Point.Equal (p q : Point) : Prop where
  measurement : p.measurement = q.measurement
  tags : p.kept.Perm q.kept
  fields : p.values.Perm q.values
  time : p.time = q.time

theorem readsBack_iff_writable (h : p.Exact) : p.ReadsBack ↔ p.Writable := by
  obtain ⟨line, -, -, hline, -⟩ := toLineProtocol_text h
  exact ⟨fun hback => hback.writable h, fun hw => ⟨line, hline, hw.readsBack h hline⟩⟩

end Points

/-! ### Annotations -/

/-- The point that an annotation is written as, with its fields. -/
def annotationPoint (p : Chronograf.Point) : Point where
  measurement := "annotations"
  tags := ("id", p.id) :: p.tags.members.toList
  fields := [("deleted", .bool p.deleted), ("start_time", .int p.startTime), ("modified_time_ns", .int p.modifiedTimeNs),
    ("text", .string p.text)]
  time := p.time

/-- An annotation arrives as it is if it has a time, plain tags, and no line break in these or in its text. -/
theorem annotation_readsBack_iff (p : Chronograf.Point) : (annotationPoint p).ReadsBack ↔
    p.time ≠ 0 ∧ (∀ t ∈ (annotationPoint p).kept, Plain t.1 ∧ Plain t.2 ∧ '\n' ∉ t.1.toList ∧ '\n' ∉ t.2.toList) ∧
      '\n' ∉ p.text.toList := by
  have hexact : (annotationPoint p).Exact := ⟨by simp [annotationPoint], by simp [annotationPoint], by simp [annotationPoint, FieldValue.value]⟩
  rw [readsBack_iff_writable hexact]
  constructor
  · intro h
    refine ⟨h.time, fun t ht => ?_, ?_⟩
    · exact ⟨(h.tags t ht).1, (h.tags t ht).2, h.oneLine.2.1 t ht⟩
    · exact (h.oneLine.2.2 ("text", .string p.text) (by simp [annotationPoint])).2 p.text rfl
  · rintro ⟨htime, htags, htext⟩
    refine ⟨htime, by simp [annotationPoint], by simp [annotationPoint], fun t ht => ⟨(htags t ht).1, (htags t ht).2.1⟩, fun f hf => ?_,
      by simp [annotationPoint], fun t ht => (htags t ht).2.2, fun f hf => ?_⟩
    · have hkeys : ∀ k ∈ ["deleted", "start_time", "modified_time_ns", "text"], Plain k := by decide
      exact hkeys _ (List.mem_map_of_mem (f := Prod.fst) hf)
    · simp only [annotationPoint, List.mem_cons, List.not_mem_nil, or_false] at hf
      rcases hf with rfl | rfl | rfl | rfl
      · exact ⟨by simp, fun s h => by cases h⟩
      · exact ⟨by simp, fun s h => by cases h⟩
      · exact ⟨by simp, fun s h => by cases h⟩
      · refine ⟨by simp, ?_⟩
        rintro s ⟨⟩
        exact htext

/-! ### Two lines -/

/-- A point with a text that has quotes and backslashes. -/
def taggedPoint (tags : List (String × String)) : Point := ⟨"annotations", tags, [("text", .string "say \"a\\b\"")], 1⟩

theorem taggedPoint_exact (tags : List (String × String)) : (taggedPoint tags).Exact :=
  ⟨by simp [taggedPoint], by simp [taggedPoint], by simp [taggedPoint, FieldValue.value]⟩

/-- A tag whose value is a path. -/
def pathPoint : Point := ⟨"annotations", [("path", "C:\\")], [("text", .string "x")], 1⟩

end LineProtocol
end Chronograf
