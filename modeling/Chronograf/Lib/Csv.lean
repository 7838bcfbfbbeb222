/-
# Comma-separated values

Records of fields as RFC 4180 writes them: a field in quotes, in which quotes
are doubled, or as it is where it has no character that matters; commas
between fields and a line break between records. A text is read in one way,
whichever line break it is written with. A lone carriage return at its end
is no line break: readers take it into the last field.

Key definitions: `Csv.FieldText`, `Csv.Text`, `Csv.Reads`.
Key theorems: `Csv.FieldText.split`, `Csv.Text.unique`, `Csv.Text.getLast_ne`, `Csv.exists_reads`.
-/
import Mathlib.Data.List.Basic
import Mathlib.Data.Nat.Notation

namespace Csv

def escape (cs : List Char) : List Char := cs.flatMap fun c => if c = '"' then ['"', '"'] else [c]

def special (c : Char) : Bool := c = '"' ∨ c = ',' ∨ c = '\n' ∨ c = '\r'

/-- How a field is written. -/
inductive FieldText : String → List Char → Prop
  | quoted (f : String) : FieldText f ('"' :: escape f.toList ++ ['"'])
  | plain (f : String) (h : ∀ c ∈ f.toList, ¬special c) : FieldText f f.toList

/-- How records are written, with this line break between them. -/
inductive Text (eol : List Char) : List (List String) → List Char → Prop
  | one {f : String} {t : List Char} : FieldText f t → Text eol [[f]] t
  | comma {f : String} {t s : List Char} {row : List String} {rows : List (List String)} :
    FieldText f t → Text eol (row :: rows) s → Text eol ((f :: row) :: rows) (t ++ ',' :: s)
  | line {f : String} {t s : List Char} {rows : List (List String)} :
    FieldText f t → Text eol rows s → Text eol ([f] :: rows) (t ++ (eol ++ s))

def IsLineBreak (eol : List Char) : Prop := eol = ['\n'] ∨ eol = ['\r', '\n']

/-- A reader of records of one length, of at least two fields. Of three records and more, with a lone
carriage return behind them, all but the last field is read. -/
structure Reads (parse : List Char → List (List String)) : Prop where
  records : ∀ {eol rows text}, IsLineBreak eol → Text eol rows text → ∀ {n}, 2 ≤ n → (∀ row ∈ rows, row.length = n) → parse text = rows
  lone : ∀ {rows row f text}, Text ['\r', '\n'] (rows ++ [row ++ [f]]) text → 2 ≤ rows.length → ∀ {n}, 2 ≤ n →
    (∀ row' ∈ rows ++ [row ++ [f]], row'.length = n) → ∃ f', parse (text ++ ['\r']) = rows ++ [row ++ [f']]

/-! ### Fields -/

/-- What comes behind a field. -/
def Ends (rest : List Char) : Prop := ∀ c, rest.head? = some c → c = ',' ∨ c = '\n' ∨ c = '\r'

theorem escape_split : ∀ {f f' rest rest' : List Char}, Ends rest → Ends rest' →
    escape f ++ '"' :: rest = escape f' ++ '"' :: rest' → f = f' ∧ rest = rest'
  | [], [], rest, rest', _, _, h => ⟨rfl, (List.cons.inj h).2⟩
  | c :: f, [], rest, rest', _, hrest', h => by
    rw [escape, List.flatMap_cons] at h
    split_ifs at h with hc
    · have hhead : rest'.head? = some '"' := by rw [← (List.cons.inj h).2]; rfl
      rcases hrest' _ hhead with h | h | h <;> exact absurd h (by decide)
    · exact absurd (List.cons.inj h).1 hc
  | [], c :: f', rest, rest', hrest, _, h => by
    rw [escape, escape, List.flatMap_cons] at h
    split_ifs at h with hc
    · have hhead : rest.head? = some '"' := by rw [(List.cons.inj h).2]; rfl
      rcases hrest _ hhead with h | h | h <;> exact absurd h (by decide)
    · exact absurd (List.cons.inj h).1.symm hc
  | c :: f, c' :: f', rest, rest', hrest, hrest', h => by
    rw [escape, escape, List.flatMap_cons, List.flatMap_cons] at h
    split_ifs at h with hc hc' hc'
    · have htail := (List.cons.inj (List.cons.inj h).2).2
      obtain ⟨rfl, rfl⟩ := escape_split hrest hrest' htail
      exact ⟨by rw [hc, hc'], rfl⟩
    · exact absurd (List.cons.inj h).1.symm hc'
    · exact absurd (List.cons.inj h).1 hc
    · obtain ⟨hhead, htail⟩ := List.cons.inj h
      obtain ⟨rfl, rfl⟩ := escape_split hrest hrest' htail
      exact ⟨by rw [hhead], rfl⟩

theorem plain_split : ∀ {f f' rest rest' : List Char}, (∀ c ∈ f, ¬special c) → (∀ c ∈ f', ¬special c) → Ends rest → Ends rest' →
    f ++ rest = f' ++ rest' → f = f' ∧ rest = rest'
  | [], [], _, _, _, _, _, _, h => ⟨rfl, h⟩
  | c :: f, [], rest, rest', hf, _, _, hrest', h => by
    have hhead : rest'.head? = some c := by rw [← List.nil_append rest', ← h]; rfl
    have hc : special c := decide_eq_true (.inr (hrest' c hhead))
    exact absurd hc (hf c List.mem_cons_self)
  | [], c :: f', rest, rest', _, hf', hrest, _, h => by
    have hhead : rest.head? = some c := by rw [← List.nil_append rest, h]; rfl
    have hc : special c := decide_eq_true (.inr (hrest c hhead))
    exact absurd hc (hf' c List.mem_cons_self)
  | c :: f, c' :: f', _, _, hf, hf', hrest, hrest', h => by
    obtain ⟨hhead, htail⟩ := List.cons.inj h
    obtain ⟨rfl, rfl⟩ := plain_split (fun d hd => hf d (List.mem_cons_of_mem _ hd)) (fun d hd => hf' d (List.mem_cons_of_mem _ hd)) hrest hrest' htail
    exact ⟨by rw [hhead], rfl⟩

/-- What does not begin with a quote is no field in quotes. -/
theorem not_quote {f rest : List Char} (hf : ∀ c ∈ f, ¬special c) (hrest : Ends rest) : (f ++ rest).head? ≠ some '"' := by
  cases f with
  | nil =>
    intro h
    rcases hrest _ h with h | h | h <;> exact absurd h (by decide)
  | cons c f =>
    intro h
    exact hf c List.mem_cons_self (Option.some_inj.mp h ▸ by decide)

/-- The field at the beginning of a text, and what is behind it. -/
theorem FieldText.split {f f' : String} {t t' rest rest' : List Char} (h : FieldText f t) (h' : FieldText f' t')
    (hrest : Ends rest) (hrest' : Ends rest') (heq : t ++ rest = t' ++ rest') : f = f' ∧ rest = rest' := by
  cases h with
  | quoted =>
    cases h' with
    | quoted =>
      rw [List.cons_append, List.cons_append, List.cons_append, List.cons_append, List.append_assoc, List.append_assoc] at heq
      obtain ⟨hf, hr⟩ := escape_split hrest hrest' (List.cons.inj heq).2
      exact ⟨String.toList_injective hf, hr⟩
    | plain hplain => exact absurd (congrArg List.head? heq).symm (not_quote hplain hrest')
  | plain hplain =>
    cases h' with
    | quoted => exact absurd (congrArg List.head? heq) (not_quote hplain hrest)
    | plain hplain' =>
      obtain ⟨hf, hr⟩ := plain_split hplain hplain' hrest hrest' heq
      exact ⟨String.toList_injective hf, hr⟩

/-! ### Records -/

theorem ends_nil : Ends [] := nofun

theorem ends_comma (s : List Char) : Ends (',' :: s) := fun _ h => .inl (Option.some_inj.mp h).symm

theorem ends_eol {eol : List Char} (heol : IsLineBreak eol) (s : List Char) : Ends (eol ++ s) := by
  rintro c hc
  rcases heol with rfl | rfl
  · exact .inr (.inl (Option.some_inj.mp hc).symm)
  · exact .inr (.inr (Option.some_inj.mp hc).symm)

theorem Text.ne_nil {eol : List Char} {rows : List (List String)} {text : List Char} (h : Text eol rows text) : rows ≠ [] := by
  cases h <;> exact List.cons_ne_nil _ _

/-- A text is written from one list of records. -/
theorem Text.unique {eol eol' : List Char} (heol : IsLineBreak eol) (heol' : IsLineBreak eol') {rows rows' : List (List String)}
    {text text' : List Char} (h : Text eol rows text) (h' : Text eol' rows' text') (heq : text = text') : rows = rows' := by
  have hcomma : ∀ s, eol ++ s ≠ [] ∧ ∀ s', ',' :: s' ≠ eol ++ s := by
    rcases heol with rfl | rfl <;> exact fun s => ⟨nofun, fun s' h => absurd (List.cons.inj h).1 (by decide)⟩
  have hcomma' : ∀ s, eol' ++ s ≠ [] ∧ ∀ s', ',' :: s' ≠ eol' ++ s := by
    rcases heol' with rfl | rfl <;> exact fun s => ⟨nofun, fun s' h => absurd (List.cons.inj h).1 (by decide)⟩
  have hsame : ∀ s s', eol ++ s = eol' ++ s' → s = s' := by
    rcases heol with rfl | rfl <;> rcases heol' with rfl | rfl <;> intro s s' h
    · exact (List.cons.inj h).2
    · exact absurd (List.cons.inj h).1 (by decide)
    · exact absurd (List.cons.inj h).1 (by decide)
    · exact (List.cons.inj (List.cons.inj h).2).2
  induction h generalizing rows' text' with
  | one hf =>
    have heq := (List.append_nil _).trans heq
    cases h' with
    | one hf' =>
      obtain ⟨rfl, -⟩ := hf.split hf' ends_nil ends_nil (heq.trans (List.append_nil _).symm)
      rfl
    | comma hf' => exact absurd (hf.split hf' ends_nil (ends_comma _) heq).2 (by simp)
    | line hf' => exact absurd (hf.split hf' ends_nil (ends_eol heol' _) heq).2.symm (hcomma' _).1
  | comma hf hs ih =>
    cases h' with
    | one hf' => exact absurd (hf.split hf' (ends_comma _) ends_nil (heq.trans (List.append_nil _).symm)).2 (by simp)
    | comma hf' hs' =>
      obtain ⟨rfl, hrest⟩ := hf.split hf' (ends_comma _) (ends_comma _) heq
      obtain ⟨rfl, rfl⟩ := List.cons.inj (ih hs' (List.cons.inj hrest).2)
      rfl
    | line hf' => exact absurd (hf.split hf' (ends_comma _) (ends_eol heol' _) heq).2 ((hcomma' _).2 _)
  | line hf hs ih =>
    cases h' with
    | one hf' => exact absurd (hf.split hf' (ends_eol heol _) ends_nil (heq.trans (List.append_nil _).symm)).2 (hcomma _).1
    | comma hf' => exact absurd (hf.split hf' (ends_eol heol _) (ends_comma _) heq).2.symm ((hcomma _).2 _)
    | line hf' hs' =>
      obtain ⟨rfl, hrest⟩ := hf.split hf' (ends_eol heol _) (ends_eol heol' _) heq
      rw [ih hs' (hsame _ _ hrest)]

theorem FieldText.getLast_ne {f : String} {t : List Char} (h : FieldText f t) : t.getLast? ≠ some '\r' := by
  cases h with
  | quoted =>
    rw [List.getLast?_concat]
    exact fun h => absurd h (by decide)
  | plain hplain => exact fun h => hplain _ (List.mem_of_getLast? h) (by decide)

/-- No text ends with a carriage return. -/
theorem Text.getLast_ne {eol : List Char} (heol : IsLineBreak eol) {rows : List (List String)} {text : List Char} (h : Text eol rows text) :
    text.getLast? ≠ some '\r' := by
  have hnewline : eol.getLast? = some '\n' := by rcases heol with rfl | rfl <;> rfl
  induction h with
  | one hf => exact hf.getLast_ne
  | @comma f t s row rows hf hs ih =>
    rw [List.getLast?_append, List.getLast?_cons]
    cases hlast : s.getLast? with
    | none => exact fun h => absurd (Option.some_inj.mp h) (by decide)
    | some c => exact fun h => ih (hlast.trans h)
  | @line f t s rows hf hs ih =>
    rw [List.getLast?_append, List.getLast?_append, hnewline]
    cases hlast : s.getLast? with
    | none => exact fun h => absurd (Option.some_inj.mp h) (by decide)
    | some c => exact fun h => ih (hlast.trans h)

/-- What a reader may make of a text, with `z` for a last field that a carriage return is behind. -/
inductive Reading (z : String) : List (List String) → List Char → Prop
  | none {text : List Char} : Reading z [] text
  | records {eol : List Char} {rows : List (List String)} {text : List Char} : IsLineBreak eol → Text eol rows text → Reading z rows text
  | lone {rows : List (List String)} {row : List String} {f : String} {text : List Char} :
    Text ['\r', '\n'] (rows ++ [row ++ [f]]) text → Reading z (rows ++ [row ++ [z]]) (text ++ ['\r'])

/-- There is a reader that reads nothing from a text that no records are written as, and `z` where a carriage return is behind a field. -/
theorem exists_reads (z : String) : ∃ parse, Reads parse ∧ (∀ text, Reading z (parse text) text) ∧
    ∀ {rows row f text}, Text ['\r', '\n'] (rows ++ [row ++ [f]]) text → parse (text ++ ['\r']) = rows ++ [row ++ [z]] := by
  classical
  let parse : List Char → List (List String) := fun text =>
    if h : ∃ rows eol, IsLineBreak eol ∧ Text eol rows text then h.choose
    else if h : ∃ rows row f t, Text ['\r', '\n'] (rows ++ [row ++ [f]]) t ∧ text = t ++ ['\r'] then h.choose ++ [h.choose_spec.choose ++ [z]]
    else []
  have hrecords : ∀ {eol rows text}, IsLineBreak eol → Text eol rows text → parse text = rows := fun {eol rows text} heol htext => by
    have h : ∃ rows eol, IsLineBreak eol ∧ Text eol rows text := ⟨rows, eol, heol, htext⟩
    obtain ⟨eol', heol', htext'⟩ := h.choose_spec
    exact (dif_pos h).trans (htext'.unique heol' heol htext rfl)
  have hlone : ∀ {rows row f text}, Text ['\r', '\n'] (rows ++ [row ++ [f]]) text → parse (text ++ ['\r']) = rows ++ [row ++ [z]] :=
    fun {rows row f text} htext => by
      have hnone : ¬∃ rows eol, IsLineBreak eol ∧ Text eol rows (text ++ ['\r']) := fun ⟨_, eol, heol, h⟩ =>
        h.getLast_ne heol List.getLast?_concat
      have h : ∃ rows row f t, Text ['\r', '\n'] (rows ++ [row ++ [f]]) t ∧ text ++ ['\r'] = t ++ ['\r'] := ⟨rows, row, f, text, htext, rfl⟩
      obtain ⟨f', t, htext', heq⟩ := h.choose_spec.choose_spec
      have hsame := htext'.unique (.inr rfl) (.inr rfl) htext (List.append_cancel_right heq).symm
      obtain ⟨hrows, hrow⟩ := List.append_inj' hsame rfl
      obtain ⟨hrow, -⟩ := List.append_inj' (List.cons.inj hrow).1 rfl
      exact (dif_neg hnone).trans ((dif_pos h).trans (congrArg₂ (fun rows row => rows ++ [row ++ [z]]) hrows hrow))
  refine ⟨parse, ⟨fun heol htext _ _ _ => hrecords heol htext, fun htext _ _ _ _ => ⟨z, hlone htext⟩⟩, fun text => ?_, hlone⟩
  by_cases h : ∃ rows eol, IsLineBreak eol ∧ Text eol rows text
  · obtain ⟨rows, eol, heol, htext⟩ := h
    rw [hrecords heol htext]
    exact .records heol htext
  by_cases h' : ∃ rows row f t, Text ['\r', '\n'] (rows ++ [row ++ [f]]) t ∧ text = t ++ ['\r']
  · obtain ⟨rows, row, f, t, htext, rfl⟩ := h'
    rw [hlone htext]
    exact .lone htext
  · have hnil : parse text = [] := (dif_neg h).trans (dif_neg h')
    rw [hnil]
    exact .none

end Csv
